import Zstandard.Proofs.OneShot
import Zstandard.Proofs.Protocol
import Zstandard.Proofs.Pump

/-!
# Closing a frame

A pump and a one-shot operation close their frame by asking for it until the codec reports that it
is done, and make room in between. The calls keep to the protocol, whatever comes of them, and the
last of them has closed the frame if they succeed.
-/

namespace Zstandard

variable {κ : Type} [Codec κ] {start : κ}

namespace Pump

variable {ε : Type} {calls : List StepCall} {p : Pump κ (Observed ε)}

/-- Whether a frame may be closed is a matter of room. -/
theorem Clean.may_finish (h : Clean start calls p) (hunclosed : Unclosed calls)
    (hroom : p.destination.isFull = false) (result : Except Error Step) :
    Protocol calls ⟨.empty, p.destination.free, .finish, result⟩ :=
  ⟨h.destination_fits.free_pos_iff.mpr hroom, rfl, hunclosed⟩

/-- **Closing the frame.** The calls keep to the protocol and use nothing; the last of them has
closed the frame. -/
theorem finish_ensures [Writer ε] : ∀ (turns : Nat) {calls : List StepCall}
    {p : Pump κ (Observed ε)}, Clean start calls p → Each Protocol calls → Unclosed calls →
    p.destination.isFull = false →
    Ensures (finish turns) p
      (fun _ p' => Quiet p p' ∧ p'.source = p.source
        ∧ ∃ closing, Clean start (calls ++ closing) p' ∧ Each Protocol (calls ++ closing)
          ∧ Closed (calls ++ closing) ∧ OnlyCloses closing)
      (fun _ p' => ∃ closing, Traced start (calls ++ closing) p'
        ∧ Each Protocol (calls ++ closing) ∧ OnlyCloses closing) := by
  intro turns
  -- each turn closes with one call, which is put before those of the turns to come
  induction turns with
  | zero =>
      intro calls p h hprotocol _ _
      refine Ensures.throw ⟨[], ?_, ?_, onlyCloses_nil⟩ <;> rw [List.append_nil]
      · exact h.toTraced
      · exact hprotocol
  | succ turns ih =>
      intro calls p h hprotocol hunclosed hroom
      refine Ensures.bind ((close_ensures h).mono (fun _ _ hq => hq) ?_) ?_
      · rintro _ p₁ ⟨e, htraced, -⟩
        exact ⟨_, htraced, each_snoc.mpr ⟨hprotocol, h.may_finish hunclosed hroom _⟩,
          onlyCloses_nil.cons⟩
      · rintro s p₁ ⟨hclean, hstep, hends, hsource, hdest⟩
        have hprotocol₁ := each_snoc.mpr ⟨hprotocol, h.may_finish hunclosed hroom (.ok s)⟩
        cases hs : s.completion with
        | done =>
            dsimp only
            exact Ensures.pure ⟨Quiet.of_ends hends, hsource, _, hclean, hprotocol₁,
              ⟨calls, _, rfl, rfl, StepCall.isDone_of_done hs⟩, onlyCloses_nil.cons⟩
        | pending =>
            dsimp only
            have hunclosed₁ : Unclosed (calls ++ [⟨.empty, p.destination.free, .finish, .ok s⟩]) :=
              hunclosed.snoc fun _ => StepCall.isDone_of_pending hs
            -- a step that is not the last is followed by a flush, which makes room again
            refine Ensures.bind ((flush_ensures turns hclean).mono (fun _ _ hq => hq) ?_) ?_
            · rintro _ p₂ ⟨htraced, -⟩
              exact ⟨_, htraced, hprotocol₁, onlyCloses_nil.cons⟩
            · rintro _ p₂ ⟨hclean₂, hquiet, hsource₂, hdest₂, hne⟩
              have hroom₂ : p₂.destination.isFull = false := by
                rw [hdest₂]
                exact hclean.destination_fits.isFull_rewind hne
              refine (ih hclean₂ hprotocol₁ hunclosed₁ hroom₂).mono ?_ ?_
              · rintro _ p₃ ⟨hquiet₃, hsource₃, closing, hpost⟩
                rw [List.append_assoc] at hpost
                obtain ⟨hclean₃, hprotocol₃, hclosed, honly⟩ := hpost
                exact ⟨((Quiet.of_ends hends).trans hquiet).trans hquiet₃,
                  hsource₃.trans (hsource₂.trans hsource), _, hclean₃, hprotocol₃, hclosed,
                  honly.cons⟩
              · rintro _ p₃ ⟨closing, hpost⟩
                rw [List.append_assoc] at hpost
                exact ⟨_, hpost.1, hpost.2.1, hpost.2.2.cons⟩

end Pump

namespace OneShot

/-- A one-shot operation that has not failed, and holds what its codec put out. -/
structure Kept (start : κ) (calls : List StepCall) (o : OneShot κ) : Prop where
  /-- The calls lead to the codec. -/
  steps : Steps start calls o.codec
  /-- They keep to the protocol. -/
  protocol : Each Protocol calls
  /-- None has failed. -/
  succeeded : ∀ c ∈ calls, c.succeeded = true
  /-- The output is in the destination. -/
  output : o.destination.bytes.data.toList = givenBy calls
  /-- The destination keeps to its bounds. -/
  fits : o.destination.Fits

/-- What was fed keeps to the protocol. -/
theorem Fed.kept {source : List UInt8} {calls : List StepCall} {remaining : Slice} {o : OneShot κ}
    (h : Fed start source calls remaining o) : Kept start calls o :=
  ⟨h.feeding.steps, (protocol_of_feeds h.feeding.feeds).1, h.feeding.succeeded, h.output, h.fits⟩

/-- One more call that closes the frame. -/
theorem Kept.closed {calls : List StepCall} {o o' : OneShot κ} {s : Step} (h : Kept start calls o)
    (hunclosed : Unclosed calls) (hroom : o.destination.isFull = false)
    (hstep : Codec.step o.codec .empty o.destination.free .finish = (.ok s, o'.codec))
    (hdest : o'.destination = o.destination.append s.produced) :
    Kept start (calls ++ [⟨.empty, o.destination.free, .finish, .ok s⟩]) o' where
  steps := h.steps.snoc hstep
  protocol := each_snoc.mpr ⟨h.protocol, h.fits.free_pos_iff.mpr hroom, rfl, hunclosed⟩
  succeeded := succeeded_snoc h.succeeded
  output := by
    rw [hdest, GrowableBuffer.toList_append, h.output, givenBy_snoc_ok]
  fits := hdest ▸ h.fits.append (Codec.produced_le hstep)

/-- **Closing the frame.** The calls keep to the protocol and use nothing; the last of them has
closed the frame. -/
theorem finish_ensures {memory : Memory} : ∀ (turns : Nat) {calls : List StepCall} {o : OneShot κ},
    Kept start calls o → Unclosed calls → o.destination.isFull = false →
    Ensures (finish memory turns) o
      (fun _ o' => ∃ closing, Kept start (calls ++ closing) o' ∧ Closed (calls ++ closing)
        ∧ OnlyCloses closing)
      (fun _ o' => ∃ closing, Steps start (calls ++ closing) o'.codec
        ∧ Each Protocol (calls ++ closing) ∧ OnlyCloses closing) := by
  intro turns
  induction turns with
  | zero =>
      intro calls o h _ _
      refine Ensures.throw ⟨[], ?_, ?_, onlyCloses_nil⟩ <;> rw [List.append_nil]
      · exact h.steps
      · exact h.protocol
  | succ turns ih =>
      intro calls o h hunclosed hroom
      refine Ensures.bind ((step_ensures .empty .finish o).mono (fun _ _ hq => hq) ?_) ?_
      · rintro _ o₁ ⟨e, hstep⟩
        exact ⟨_, h.steps.snoc hstep,
          each_snoc.mpr ⟨h.protocol, h.fits.free_pos_iff.mpr hroom, rfl, hunclosed⟩,
          onlyCloses_nil.cons⟩
      · rintro s o₁ ⟨hstep, hdest⟩
        have h₁ := h.closed hunclosed hroom hstep hdest
        cases hs : s.completion with
        | done =>
            dsimp only
            exact Ensures.pure ⟨_, h₁, ⟨calls, _, rfl, rfl, StepCall.isDone_of_done hs⟩,
              onlyCloses_nil.cons⟩
        | pending =>
            dsimp only
            have hunclosed₁ : Unclosed (calls ++ [⟨.empty, o.destination.free, .finish, .ok s⟩]) :=
              hunclosed.snoc fun _ => StepCall.isDone_of_pending hs
            refine Ensures.bind ((grow_ensures memory o₁).mono (fun _ _ hq => hq) ?_) ?_
            · rintro _ o₂ hcodec
              exact ⟨_, hcodec ▸ h₁.steps, h₁.protocol, onlyCloses_nil.cons⟩
            · rintro _ o₂ ⟨hcodec, hgrow⟩
              obtain ⟨hfits₂, hbytes, -, hroom₂⟩ := h₁.fits.grow hgrow
              have h₂ : Kept start (calls ++ [⟨.empty, o.destination.free, .finish, .ok s⟩]) o₂ :=
                ⟨hcodec ▸ h₁.steps, h₁.protocol, h₁.succeeded, hbytes ▸ h₁.output, hfits₂⟩
              refine (ih h₂ hunclosed₁ hroom₂).mono ?_ ?_
              · rintro _ o₃ ⟨closing, hpost⟩
                rw [List.append_assoc] at hpost
                exact ⟨_, hpost.1, hpost.2.1, hpost.2.2.cons⟩
              · rintro _ o₃ ⟨closing, hpost⟩
                rw [List.append_assoc] at hpost
                exact ⟨_, hpost.1, hpost.2.1, hpost.2.2.cons⟩

end OneShot

end Zstandard
