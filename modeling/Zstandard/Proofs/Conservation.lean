import Zstandard.Proofs.Pump
import Zstandard.Proofs.Trail
import Zstandard.Script

/-!
# A pump loses nothing, and stops at once

What was received was used or is pending, and what was put out was accepted or is in the
destination: a pump is `Balanced` that keeps both accounts and whose calls have brought no failure
so far. A single move keeps it so or is halted (`Balanced.act`); by induction every trail does, and
a run of any operations ends balanced or is halted by the last of its calls (`Halted`). The headline
is `pump_conserves_bytes`.
-/

namespace Zstandard

/-! ## Calls in good time -/

/-- The codec has used no more than was received, and no more was accepted than it has put out. -/
structure Fair (calls : List PumpCall) : Prop where
  /-- What was used was received before. -/
  taken : takenBy (stepsOf calls) <+: receivedBy (endsOf calls)
  /-- What was accepted was put out before. -/
  accepted : acceptedBy (endsOf calls) <+: givenBy (stepsOf calls)

/-- The calls have been fair all along. -/
def Timely (calls : List PumpCall) : Prop := ∀ before, before <+: calls → Fair before

theorem timely_nil : Timely [] := by
  intro before h
  obtain rfl := List.prefix_nil.mp h
  exact ⟨List.nil_prefix, List.nil_prefix⟩

/-- One more call of the codec. -/
theorem Timely.step {calls : List PumpCall} {c : StepCall} (h : Timely calls)
    (hfair : Fair (calls ++ [.step c])) : Timely (calls ++ [.step c]) := by
  intro before hbefore
  rcases List.prefix_concat_iff.mp hbefore with rfl | hbefore
  · exact hfair
  · exact h before hbefore

/-- More calls of the ends, in the end of which no more was accepted than was put out. -/
theorem Timely.ends {calls : List PumpCall} {more : List EndCall} (h : Timely calls)
    (hsent : acceptedBy (endsOf calls ++ more) <+: givenBy (stepsOf calls)) :
    Timely (calls ++ more.map .ends) := by
  intro before hbefore
  rcases List.prefix_or_prefix_of_prefix hbefore (List.prefix_append calls _) with hle | ⟨t, rfl⟩
  · exact h before hle
  · -- the first few of the calls, which have accepted a part of what all of them have
    have ht := List.prefix_iff_eq_take.mp ((List.prefix_append_right_inj calls).mp hbefore)
    rw [← List.map_take] at ht
    generalize t.length = n at ht
    subst ht
    have hcut : acceptedBy (more.take n) <+: acceptedBy more := by
      conv => rhs; rw [← List.take_append_drop n more]
      rw [acceptedBy_append]
      exact List.prefix_append _ _
    refine ⟨?_, ?_⟩
    · simp only [stepsOf_append, stepsOf_ends, List.append_nil, endsOf_append, endsOf_ends,
        receivedBy_append]
      exact (h calls (List.prefix_refl _)).taken.trans (List.prefix_append _ _)
    · simp only [stepsOf_append, stepsOf_ends, List.append_nil, endsOf_append, endsOf_ends,
        acceptedBy_append]
      rw [acceptedBy_append] at hsent
      exact ((List.prefix_append_right_inj _).mpr hcut).trans hsent

namespace Pump

variable {κ ε : Type} [Codec κ]

/-! ## Accounts of a pump -/

/-- A pump whose calls make a history. -/
structure Held (start : κ) (calls : List PumpCall) (p : Pump κ (Observed ε)) : Prop
    extends Traced start (stepsOf calls) p where
  /-- The calls of the ends are those in the history. -/
  ends : p.ends.calls = endsOf calls
  /-- They have been fair all along. -/
  timely : Timely calls

/-- A pump that nothing has failed. -/
structure Balanced (start : κ) (calls : List PumpCall) (p : Pump κ (Observed ε)) : Prop
    extends Held start calls p where
  /-- Its output was accepted, or is in the destination. -/
  clean : Clean start (stepsOf calls) p
  /-- No call has brought a failure. -/
  harmless : Harmless PumpCall.error? calls

/-- A pump that was halted. -/
structure Halted (start : κ) (calls : List PumpCall) (x : Halt Error)
    (p : Pump κ (Observed ε)) : Prop extends Held start calls p where
  /-- Unless a write was refused or is not over, the output was accepted, or is in the
  destination. -/
  output : x ≠ .outOfTurns → Unrefused (endsOf calls) →
    givenBy (stepsOf calls) = acceptedBy p.ends.calls ++ p.destination.bytes.data.toList
  /-- Either the last call brought the failure, and no other did, or none did. -/
  cause : Blames PumpCall.error? calls x

section Accounts

variable {start : κ} {calls : List PumpCall} {p p' : Pump κ (Observed ε)} {c : StepCall}
  {more : List EndCall} {x : Halt Error} {e : Error}

theorem Held.fair_of_traced (htraced : Traced start (stepsOf calls) p)
    (hends : p.ends.calls = endsOf calls) : Fair calls where
  taken := by
    rw [← hends, htraced.source]
    exact List.prefix_append _ _
  accepted := hends ▸ htraced.sent

/-- One more call of the codec. -/
theorem Held.stepped (h : Held start calls p) (htraced : Traced start (stepsOf calls ++ [c]) p')
    (hends : p'.ends = p.ends) : Held start (calls ++ [.step c]) p' := by
  have htraced' : Traced start (stepsOf (calls ++ [.step c])) p' := by
    rw [stepsOf_append]
    exact htraced
  have hends' : p'.ends.calls = endsOf (calls ++ [.step c]) := by
    rw [hends, h.ends, endsOf_append, endsOf_step, List.append_nil]
  exact ⟨htraced', hends', h.timely.step (fair_of_traced htraced' hends')⟩

/-- More calls of the ends. -/
theorem Held.moved (h : Held start calls p) (htraced : Traced start (stepsOf calls) p')
    (hends : p'.ends.calls = p.ends.calls ++ more) :
    Held start (calls ++ more.map .ends) p' := by
  have hends' : p'.ends.calls = endsOf calls ++ more := by rw [hends, h.ends]
  refine ⟨?_, ?_, h.timely.ends (hends' ▸ htraced.sent)⟩
  · rw [stepsOf_append, stepsOf_ends, List.append_nil]
    exact htraced
  · rw [endsOf_append, endsOf_ends, hends']

theorem Balanced.stepped (h : Balanced start calls p)
    (hclean : Clean start (stepsOf calls ++ [c]) p') (hends : p'.ends = p.ends)
    (hc : c.error? = none) : Balanced start (calls ++ [.step c]) p' := by
  refine ⟨h.toHeld.stepped hclean.toTraced hends, ?_, ?_⟩
  · rw [stepsOf_append]
    exact hclean
  · exact List.forall_mem_append.mpr ⟨h.harmless, List.forall_mem_singleton.mpr hc⟩

/-- Calls of ends bring the same failures in a history. -/
theorem harmless_ends (h : Harmless EndCall.error? more) :
    Harmless PumpCall.error? (more.map .ends) :=
  List.forall_mem_map.mpr h

theorem failsLast_of_append (hcalls : Harmless PumpCall.error? calls)
    (h : FailsLast EndCall.error? more e) :
    FailsLast PumpCall.error? (calls ++ more.map .ends) e := by
  obtain ⟨before, last, rfl, hbefore, hlast⟩ := h
  refine ⟨calls ++ before.map .ends, .ends last, by simp, ?_, hlast⟩
  exact List.forall_mem_append.mpr ⟨hcalls, harmless_ends hbefore⟩

theorem Balanced.moved (h : Balanced start calls p) (hclean : Clean start (stepsOf calls) p')
    (hends : p'.ends.calls = p.ends.calls ++ more) (hmore : Harmless EndCall.error? more) :
    Balanced start (calls ++ more.map .ends) p' := by
  refine ⟨h.toHeld.moved hclean.toTraced hends, ?_, ?_⟩
  · rw [stepsOf_append, stepsOf_ends, List.append_nil]
    exact hclean
  · exact List.forall_mem_append.mpr ⟨h.harmless, harmless_ends hmore⟩

/-- A step that fails uses nothing and puts out nothing, but it is a call. -/
theorem Balanced.failed (h : Balanced start calls p) {input : Slice} {room : Nat}
    {directive : Directive} {codec : κ}
    (hstep : Codec.step p.codec input room directive = (.error e, codec)) :
    Halted start (calls ++ [.step ⟨input, room, directive, .error e⟩]) (.failed e)
      { p with codec } := by
  have hsteps : stepsOf (calls ++ [.step ⟨input, room, directive, .error e⟩])
      = stepsOf calls ++ [⟨input, room, directive, .error e⟩] := by simp
  have htaken : takenBy (stepsOf calls ++ [⟨input, room, directive, .error e⟩])
      = takenBy (stepsOf calls) := by simp [StepCall.taken]
  have hgiven : givenBy (stepsOf calls ++ [⟨input, room, directive, .error e⟩])
      = givenBy (stepsOf calls) := by simp [StepCall.given]
  have htraced : Traced start (stepsOf calls ++ [⟨input, room, directive, .error e⟩])
      { p with codec } := by
    refine ⟨h.steps.snoc hstep, ?_, ?_, h.source_fits, h.destination_fits⟩
    · rw [htaken]
      exact h.source
    · rw [hgiven]
      exact h.sent
  refine ⟨h.toHeld.stepped htraced rfl, fun _ _ => ?_,
    Or.inl ⟨e, rfl, calls, _, rfl, h.harmless, rfl⟩⟩
  rw [hsteps, hgiven]
  exact h.clean.output

/-- Calls of the ends that end with a failure, or with none. -/
theorem Balanced.halted (h : Balanced start calls p) (htraced : Traced start (stepsOf calls) p')
    (hends : p'.ends.calls = p.ends.calls ++ more)
    (houtput : x ≠ .outOfTurns → Unrefused more →
      givenBy (stepsOf calls) = acceptedBy p'.ends.calls ++ p'.destination.bytes.data.toList)
    (hcause : Blames EndCall.error? more x) :
    Halted start (calls ++ more.map .ends) x p' where
  toHeld := h.toHeld.moved htraced hends
  output hx hunrefused := by
    rw [endsOf_append, endsOf_ends] at hunrefused
    rw [stepsOf_append, stepsOf_ends, List.append_nil]
    exact houtput hx fun c hc => hunrefused c (List.mem_append_right _ hc)
  cause := by
    rcases hcause with ⟨e, rfl, hlast⟩ | hmore
    · exact Or.inl ⟨e, rfl, failsLast_of_append h.harmless hlast⟩
    · exact Or.inr (List.forall_mem_append.mpr ⟨h.harmless, harmless_ends hmore⟩)

end Accounts

/-! ## One move -/

omit [Codec κ] in
theorem forget_ok {σ δ α : Type} {result : EStateM.Result δ σ α} {s : σ}
    (h : forget result = .ok () s) : ∃ a, result = .ok a s := by
  cases result with
  | ok a _ => cases h; exact ⟨a, rfl⟩
  | error => cases h

omit [Codec κ] in
theorem forget_error {σ δ α : Type} {result : EStateM.Result δ σ α} {x : δ} {s : σ}
    (h : forget result = .error x s) : result = .error x s := by
  cases result with
  | ok => cases h
  | error => cases h; rfl

section Moves

variable [Reader ε] [Writer ε] {start : κ} {calls : List PumpCall} {p : Pump κ (Observed ε)}

/-- A move that steps the codec makes that call, and no other. -/
theorem Balanced.of_step (h : Balanced start calls p) {m : Move} {turns : Nat} {input : Slice}
    {room : Nat} {directive : Directive}
    (hm : m.step? p
      = some ⟨input, room, directive, (Codec.step p.codec input room directive).1⟩)
    (hok : ∀ p', m.act turns p = .ok () p' → ∃ s,
      Clean start (stepsOf calls ++ [⟨input, room, directive, .ok s⟩]) p'
        ∧ Codec.step p.codec input room directive = (.ok s, p'.codec) ∧ p'.ends = p.ends)
    (herror : ∀ x p', m.act turns p = .error x p' → ∃ e codec,
      Codec.step p.codec input room directive = (.error e, codec) ∧ x = .failed e
        ∧ p' = { p with codec }) :
    Ensures (m.act turns) p (fun _ p' => Balanced start (calls ++ m.calls p p') p')
      (fun x p' => Halted start (calls ++ m.calls p p') x p') := by
  refine Ensures.intro (fun _ p' hw => ?_) (fun x p' hw => ?_)
  · obtain ⟨s, hclean, hstep, hends⟩ := hok p' hw
    rw [hstep] at hm
    rw [Move.calls_of_step hm hends]
    exact h.stepped hclean hends rfl
  · obtain ⟨e, codec, hstep, rfl, rfl⟩ := herror x p' hw
    rw [hstep] at hm
    have hcalls : m.calls p { p with codec } = [.step ⟨input, room, directive, .error e⟩] :=
      Move.calls_of_step hm rfl
    rw [hcalls]
    exact h.failed hstep

theorem Balanced.feed (h : Balanced start calls p) (turns : Nat) :
    Ensures (Move.feed.act turns) p
      (fun _ p' => Balanced start (calls ++ Move.feed.calls p p') p')
      (fun x p' => Halted start (calls ++ Move.feed.calls p p') x p') := by
  refine h.of_step rfl (fun p' hw => ?_) (fun x p' hw => ?_)
  · obtain ⟨s, hres⟩ := forget_ok hw
    obtain ⟨hclean, hstep, hends, -, -⟩ := (feed_ensures h.clean).of_ok hres
    exact ⟨s, hclean, hstep, hends⟩
  · have hres := forget_error hw
    obtain ⟨codec, ends, source, destination, readTotal, writtenTotal, log⟩ := p
    dsimp only [Pump.feed] at hres
    split at hres <;> cases hres
    next e codec' hstep => exact ⟨e, codec', hstep, rfl, rfl⟩

theorem Balanced.close (h : Balanced start calls p) (turns : Nat) :
    Ensures (Move.close.act turns) p
      (fun _ p' => Balanced start (calls ++ Move.close.calls p p') p')
      (fun x p' => Halted start (calls ++ Move.close.calls p p') x p') := by
  refine h.of_step rfl (fun p' hw => ?_) (fun x p' hw => ?_)
  · obtain ⟨s, hres⟩ := forget_ok hw
    obtain ⟨hclean, hstep, hends, -, -⟩ := (close_ensures h.clean).of_ok hres
    exact ⟨s, hclean, hstep, hends⟩
  · have hres := forget_error hw
    obtain ⟨codec, ends, source, destination, readTotal, writtenTotal, log⟩ := p
    dsimp only [Pump.close] at hres
    split at hres <;> cases hres
    next e codec' hstep => exact ⟨e, codec', hstep, rfl, rfl⟩

/-- A move that does not step the codec makes calls of the ends, and no other. -/
theorem Balanced.of_ends (h : Balanced start calls p) {m : Move} {turns : Nat}
    (more : List EndCall) (hm : m.step? p = none)
    (hok : ∀ p', m.act turns p = .ok () p' → Clean start (stepsOf calls) p'
      ∧ p'.ends.calls = p.ends.calls ++ more ∧ Harmless EndCall.error? more)
    (herror : ∀ x p', m.act turns p = .error x p' → Traced start (stepsOf calls) p'
      ∧ p'.ends.calls = p.ends.calls ++ more
      ∧ (x ≠ .outOfTurns → Unrefused more → givenBy (stepsOf calls)
        = acceptedBy p'.ends.calls ++ p'.destination.bytes.data.toList)
      ∧ Blames EndCall.error? more x) :
    Ensures (m.act turns) p (fun _ p' => Balanced start (calls ++ m.calls p p') p')
      (fun x p' => Halted start (calls ++ m.calls p p') x p') := by
  refine Ensures.intro (fun _ p' hw => ?_) (fun x p' hw => ?_)
  · obtain ⟨hclean, hends, hmore⟩ := hok p' hw
    rw [Move.calls_of_ends hm hends]
    exact h.moved hclean hends hmore
  · obtain ⟨htraced, hends, houtput, hcause⟩ := herror x p' hw
    rw [Move.calls_of_ends hm hends]
    exact h.halted htraced hends houtput hcause

/-- Reads leave the output where it is. -/
theorem Balanced.refill (h : Balanced start calls p) (turns : Nat) :
    Ensures (Move.refill.act turns) p
      (fun _ p' => Balanced start (calls ++ Move.refill.calls p p') p')
      (fun x p' => Halted start (calls ++ Move.refill.calls p p') x p') := by
  have hrefill := refill_ensures turns h.clean
  obtain ⟨more, hmore, hexplained⟩ := p.source.refill_explained turns p.ends
  refine h.of_ends more rfl (fun p' hw => ?_) (fun x p' hw => ?_)
  · obtain ⟨result, hres⟩ := forget_ok hw
    obtain ⟨hclean, -, -⟩ := hrefill.of_ok hres
    obtain ⟨codec, ends, source, destination, readTotal, writtenTotal, log⟩ := p
    dsimp only [Pump.refill] at hres
    split at hres <;> cases hres
    all_goals
      next heq =>
      rw [heq] at hmore hexplained
      refine ⟨hclean, hmore, ?_⟩
      rcases hexplained with hharmless | ⟨-, -, hfull⟩
      · exact hharmless
      · cases hfull
  · have hres := forget_error hw
    obtain ⟨htraced, hdest, more', hmore', hrefilled⟩ := hrefill.of_error hres
    have haccepted : acceptedBy p'.ends.calls = acceptedBy p.ends.calls := by
      rw [hmore', acceptedBy_append, acceptedBy_of_reads hrefilled.reads, List.append_nil]
    have houtput := h.clean.output
    obtain ⟨codec, ends, source, destination, readTotal, writtenTotal, log⟩ := p
    dsimp only [Pump.refill] at hres
    split at hres <;> cases hres
    next heq =>
    rw [heq] at hmore hexplained
    refine ⟨htraced, hmore, fun _ _ => ?_, ?_⟩
    · rw [haccepted, hdest]
      exact houtput
    · rcases hexplained with hexplained | ⟨rfl, -, -⟩
      · exact Explains.blames hexplained
      · exact Or.inr harmless_nil

/-- `p'` is `p` with other ends and another destination. -/
structure Exchanged (p p' : Pump κ (Observed ε)) (ends : Observed ε)
    (destination : DestinationBuffer) : Prop where
  codec : p'.codec = p.codec
  source : p'.source = p.source
  ends : p'.ends = ends
  destination : p'.destination = destination

/-- What is written out was in the destination, which keeps it if the writer fails. -/
theorem Balanced.writes_out (h : Balanced start calls p) {m : Move} {turns : Nat}
    {more : List EndCall} {result : Except (Halt Error) Unit} {destination : DestinationBuffer}
    {ends : Observed ε} (hm : m.step? p = none) (hmore : ends.calls = p.ends.calls ++ more)
    (hwritten : DestinationBuffer.WrittenOut p.destination destination more result)
    (hok : ∀ p', m.act turns p = .ok () p' → result = .ok () ∧ Exchanged p p' ends destination)
    (herror : ∀ x p', m.act turns p = .error x p' →
      result = .error x ∧ Exchanged p p' ends destination) :
    Ensures (m.act turns) p (fun _ p' => Balanced start (calls ++ m.calls p p') p')
      (fun x p' => Halted start (calls ++ m.calls p p') x p') := by
  have hreceived : receivedBy ends.calls = receivedBy p.ends.calls := by
    have hread : ∀ c ∈ more, c.isRead = false := by
      intro c hc
      have hwrite := hwritten.writes c hc
      cases c with
      | write => rfl
      | read => cases hwrite
      | flush => cases hwrite
    rw [hmore, receivedBy_append, receivedBy_of_no_read hread, List.append_nil]
  -- the output is what was accepted before, and what the destination held
  have houtput := h.clean.output
  have htraced : ∀ p', Exchanged p p' ends destination → destination.Fits →
      Traced start (stepsOf calls) p' := by
    intro p' hp' hfits
    refine ⟨hp'.codec ▸ h.steps, ?_, ?_, hp'.source ▸ h.source_fits, hp'.destination ▸ hfits⟩
    · rw [hp'.ends, hp'.source, hreceived]
      exact h.source
    · rw [hp'.ends, hmore, acceptedBy_append, houtput]
      exact (List.prefix_append_right_inj _).mpr hwritten.sent
  refine h.of_ends more hm (fun p' hw => ?_) (fun x p' hw => ?_)
  · obtain ⟨hresult, hp'⟩ := hok p' hw
    obtain ⟨hempty, haccepted, hharmless⟩ := hwritten.ok hresult
    refine ⟨⟨htraced p' hp' (DestinationBuffer.fits_of_empty hempty), ?_, h.clean.succeeded⟩,
      hp'.ends ▸ hmore, hharmless⟩
    rw [hp'.ends, hp'.destination, hmore, acceptedBy_append, haccepted, hempty]
    exact houtput.trans (List.append_nil _).symm
  · obtain ⟨hresult, hp'⟩ := herror x p' hw
    obtain ⟨hkept, hblames⟩ := hwritten.error x hresult
    refine ⟨htraced p' hp' (hkept ▸ h.destination_fits), hp'.ends ▸ hmore,
      fun hx hunrefused => ?_, hblames⟩
    have hnone := hwritten.unsent (by simp [hresult]) (by simp [hresult, hx]) hunrefused
    rw [hp'.ends, hp'.destination, hkept, hmore, acceptedBy_append, hnone, List.append_nil]
    exact houtput

theorem Balanced.flush (h : Balanced start calls p) (turns : Nat) :
    Ensures (Move.flush.act turns) p
      (fun _ p' => Balanced start (calls ++ Move.flush.calls p p') p')
      (fun x p' => Halted start (calls ++ Move.flush.calls p p') x p') := by
  obtain ⟨more, hmore, hwritten⟩ := p.destination.flush_writtenOut turns p.ends
  refine h.writes_out rfl hmore hwritten (fun p' hw => ?_) (fun x p' hw => ?_)
  all_goals
    obtain ⟨codec, ends, source, destination, readTotal, writtenTotal, log⟩ := p
    dsimp only [Move.act, Pump.flush] at hw
    split at hw <;> cases hw
    next heq =>
    rw [heq]
    exact ⟨rfl, rfl, rfl, rfl, rfl⟩

theorem Balanced.writeRest (h : Balanced start calls p) (turns : Nat) :
    Ensures (Move.writeRest.act turns) p
      (fun _ p' => Balanced start (calls ++ Move.writeRest.calls p p') p')
      (fun x p' => Halted start (calls ++ Move.writeRest.calls p p') x p') := by
  obtain ⟨more, hmore, hwritten⟩ := p.destination.writeRemaining_writtenOut turns p.ends
  refine h.writes_out rfl hmore hwritten (fun p' hw => ?_) (fun x p' hw => ?_)
  all_goals
    obtain ⟨codec, ends, source, destination, readTotal, writtenTotal, log⟩ := p
    dsimp only [Move.act, Pump.writeRest] at hw
    split at hw <;> cases hw
    next heq =>
    rw [heq]
    exact ⟨rfl, rfl, rfl, rfl, rfl⟩

/-- A flush of the writer hands it nothing. -/
theorem Balanced.handOn (h : Balanced start calls p) (turns : Nat) :
    Ensures (Move.handOn.act turns) p
      (fun _ p' => Balanced start (calls ++ Move.handOn.calls p p') p')
      (fun x p' => Halted start (calls ++ Move.handOn.calls p p') x p') := by
  obtain ⟨result, inner, hinner⟩ : ∃ result inner, Writer.flush p.ends.ends = (result, inner) :=
    ⟨_, _, rfl⟩
  have hflush := Observed.flush_of hinner
  obtain ⟨codec, ends, source, destination, readTotal, writtenTotal, log⟩ := p
  have htraced : ∀ total log', Traced start (stepsOf calls)
      (⟨codec, ⟨inner, ends.calls ++ [.flush result]⟩, source, destination, readTotal, total,
        log'⟩ : Pump κ (Observed ε)) := by
    intro total log'
    refine ⟨h.steps, ?_, ?_, h.source_fits, h.destination_fits⟩
    · simpa [EndCall.received] using h.source
    · simpa [EndCall.accepted] using h.sent
  have houtput : givenBy (stepsOf calls)
      = acceptedBy (ends.calls ++ [.flush result]) ++ destination.bytes.data.toList := by
    simpa [EndCall.accepted] using h.clean.output
  refine h.of_ends [.flush result] rfl (fun p' hw => ?_) (fun x p' hw => ?_)
  · dsimp only [Move.act, Pump.handOn] at hw hflush
    rw [hflush] at hw
    cases result with
    | error => cases hw
    | ok =>
        cases hw
        exact ⟨⟨htraced _ _, houtput, h.clean.succeeded⟩, rfl, List.forall_mem_singleton.mpr rfl⟩
  · dsimp only [Move.act, Pump.handOn] at hw hflush
    rw [hflush] at hw
    cases result with
    | ok => cases hw
    | error e =>
        cases hw
        exact ⟨htraced _ _, rfl, fun _ _ => houtput,
          Or.inl ⟨.writeIo e, rfl, [], _, rfl, harmless_nil, rfl⟩⟩

/-- **A single move** keeps a pump balanced, or is halted by the last of its calls. -/
theorem Balanced.act (h : Balanced start calls p) (m : Move) (turns : Nat) :
    Ensures (m.act turns) p (fun _ p' => Balanced start (calls ++ m.calls p p') p')
      (fun x p' => Halted start (calls ++ m.calls p p') x p') := by
  cases m with
  | refill => exact h.refill turns
  | feed => exact h.feed turns
  | close => exact h.close turns
  | flush => exact h.flush turns
  | writeRest => exact h.writeRest turns
  | handOn => exact h.handOn turns

/-- **A trail** keeps a pump balanced. -/
theorem Trail.balanced {q : Pump κ (Observed ε)} (htrail : Trail p calls q)
    (hp : Balanced start [] p) : Balanced start calls q := by
  induction htrail with
  | nil => exact hp
  | snoc m turns _ hact ih => exact (ih.act m turns).of_ok hact

/-- A run that fails is halted. -/
theorem History.halted {α : Type} {q : Pump κ (Observed ε)} {x : Halt Error}
    (hhistory : History p calls
      (.error x q : EStateM.Result (Halt Error) (Pump κ (Observed ε)) α))
    (hp : Balanced start [] p) : Halted start calls x q := by
  obtain ⟨before, q₀, htrail, ⟨m, turns, hact, rfl⟩ | ⟨rfl, rfl, -⟩⟩ := hhistory
  · exact ((htrail.balanced hp).act m turns).of_error hact
  · -- the pump has given up between two moves
    have hq := htrail.balanced hp
    exact ⟨hq.toHeld, fun _ _ => hq.clean.output, Or.inr hq.harmless⟩

/-- **A run** ends balanced, or is halted. -/
theorem History.ensures {α : Type} {work : Work κ (Observed ε) α}
    (hhistory : History p calls (work p)) (hp : Balanced start [] p) :
    Ensures work p (fun _ q => Balanced start calls q) (fun x q => Halted start calls x q) := by
  refine Ensures.intro (fun a q hw => ?_) (fun x q hw => ?_)
  · rw [hw] at hhistory
    exact Trail.balanced hhistory hp
  · rw [hw] at hhistory
    exact hhistory.halted hp

/-- The first call that brings a failure is the last call of a run, which fails with that. -/
theorem History.stops {work : Work κ (Observed ε) Unit} (hhistory : History p calls (work p))
    (hp : Balanced start [] p) {before after : List PumpCall} {c : PumpCall} {e : Error}
    (hcalls : calls = before ++ c :: after) (hc : c.error? = some e) :
    after = [] ∧ ∃ q, work p = .error (.failed e) q := by
  have hmem : c ∈ calls := hcalls ▸ List.mem_append_right _ List.mem_cons_self
  have hensures := hhistory.ensures hp
  cases hw : work p with
  | ok a q =>
      rw [(hensures.of_ok hw).harmless c hmem] at hc
      cases hc
  | error x q =>
      rcases (hensures.of_error hw).cause with ⟨e', rfl, hlast⟩ | hharmless
      · rw [hcalls] at hlast
        obtain ⟨rfl, rfl⟩ := hlast.eq_of_append hc
        exact ⟨rfl, q, rfl⟩
      · rw [hharmless c hmem] at hc
        cases hc

end Moves

/-- A new pump has made no call. -/
theorem balanced_new {memory : Memory} {codec : κ} {ends : ε} {log : Log}
    {sourceLength destinationLength : Nat} {p : Pump κ (Observed ε)}
    (hp : create memory codec (.new ends) log sourceLength destinationLength = .ok p) :
    Balanced codec [] p := by
  rw [create_eq hp]
  have hclean : Clean codec [] (⟨codec, .new ends, ⟨.empty, 0, sourceLength⟩,
      ⟨.empty, destinationLength⟩, 0, 0, log⟩ : Pump κ (Observed ε)) :=
    ⟨⟨.nil, rfl, List.nil_prefix, ⟨Nat.le_refl 0, Nat.zero_le _⟩, Nat.zero_le _⟩, rfl, by simp⟩
  exact ⟨⟨hclean.toTraced, rfl, timely_nil⟩, hclean, harmless_nil⟩

end Pump

/-- **A pump loses nothing, and stops at the first failure.** For every codec, reader and writer,
all buffer lengths, and every sequence of operations up to the first that fails:

* the run is a trail of single moves. Wherever a trail of such moves leads, what was received is
  what the codec has used followed by what is pending, what it has put out is what was accepted
  followed by what the destination holds, and no call has brought a failure;
* after each single call, no more was used than was received, and no more was accepted than was put
  out;
* what was received is accounted for at the end too, whatever has failed, and what was put out as
  well unless a write was refused or is not over;
* the first call of the codec, the reader or the writer that brings a failure is the last of all
  calls, and that failure is what the operation ends with. -/
theorem pump_conserves_bytes {κ ε : Type} [Codec κ] [Reader ε] [Writer ε] (memory : Memory)
    (codec : κ) (ends : ε) (log : Log) (sourceLength destinationLength : Nat)
    (p : Pump κ (Observed ε))
    (hp : Pump.create memory codec (.new ends) log sourceLength destinationLength = .ok p)
    (operations : List (Pump.Operation × Nat)) :
    (∃ calls, Pump.History p calls (Pump.perform operations p))
    ∧ (∀ calls q, Pump.Trail p calls q →
      receivedBy (endsOf calls) = takenBy (stepsOf calls) ++ q.source.pending.toList
      ∧ givenBy (stepsOf calls)
        = acceptedBy (endsOf calls) ++ q.destination.bytes.data.toList
      ∧ Harmless PumpCall.error? calls)
    ∧ ∀ calls, Pump.History p calls (Pump.perform operations p) →
      Timely calls
      ∧ (∀ x q, Pump.perform operations p = .error x q →
        receivedBy (endsOf calls) = takenBy (stepsOf calls) ++ q.source.pending.toList
        ∧ (x ≠ .outOfTurns → Unrefused (endsOf calls) → givenBy (stepsOf calls)
          = acceptedBy (endsOf calls) ++ q.destination.bytes.data.toList))
      ∧ ∀ before call after e, calls = before ++ call :: after → call.error? = some e →
        after = [] ∧ ∃ q, Pump.perform operations p = .error (.failed e) q := by
  have hnew := Pump.balanced_new hp
  refine ⟨Pump.madeOfMoves_perform operations p, fun calls q htrail => ?_,
    fun calls hhistory => ⟨?_, fun x q hw => ?_, fun before call after e hcalls he => ?_⟩⟩
  · have hq := htrail.balanced hnew
    exact ⟨hq.ends ▸ hq.source, hq.ends ▸ hq.clean.output, hq.harmless⟩
  · have hensures := hhistory.ensures hnew
    cases hw : Pump.perform operations p with
    | ok _ q => exact (hensures.of_ok hw).timely
    | error x q => exact (hensures.of_error hw).timely
  · have hq := (hhistory.ensures hnew).of_error hw
    exact ⟨hq.ends ▸ hq.source, hq.ends ▸ hq.output⟩
  · exact hhistory.stops hnew hcalls he

/-! ### A writer that breaks -/

namespace Broken

def source : Slice := .ofBytes ⟨#[1, 2, 3]⟩

def failure : IoError := .plain .brokenPipe "broken pipe"

/-- A reader of three bytes, and a writer that takes one byte and then fails. -/
def ends : Ends Slice ScriptedWriter := ⟨source, ⟨.empty, [.ok 1, .error failure], [], #[]⟩⟩

def codec : CopyingCodec := ⟨none, .empty⟩

def pump : Pump CopyingCodec (Observed (Ends Slice ScriptedWriter)) :=
  ⟨codec, .new ends, ⟨.empty, 0, 2⟩, ⟨.empty, 2⟩, 0, 0, #[]⟩

def operations : List (Pump.Operation × Nat) := [(.readSource, 9), (.finish, 9), (.complete, 9)]

end Broken

/-- The operations stop at the write that fails: two bytes were used, and one of them accepted. -/
theorem pump_conserves_bytes_of_broken :
    Pump.create .machine Broken.codec (.new Broken.ends) #[] 2 2 = .ok Broken.pump
      ∧ ∃ calls q, Pump.History Broken.pump calls (Pump.perform Broken.operations Broken.pump)
        ∧ Pump.perform Broken.operations Broken.pump = .error (.failed (.writeIo Broken.failure)) q
        ∧ receivedBy (endsOf calls) = takenBy (stepsOf calls) ++ q.source.pending.toList
        ∧ receivedBy q.ends.calls = [1, 2] ∧ acceptedBy q.ends.calls = [1] := by
  have hcreate : Pump.create .machine Broken.codec (.new Broken.ends) #[] 2 2 = .ok Broken.pump :=
    rfl
  obtain ⟨⟨calls, hhistory⟩, -, hrun⟩ := pump_conserves_bytes .machine Broken.codec Broken.ends #[]
    2 2 Broken.pump hcreate Broken.operations
  have hw : Pump.perform Broken.operations Broken.pump
      = .error (.failed (.writeIo Broken.failure))
        (match Pump.perform Broken.operations Broken.pump with
        | .ok _ q => q
        | .error _ q => q) := rfl
  refine ⟨hcreate, calls, _, hhistory, hw, ((hrun calls hhistory).2.1 _ _ hw).1, rfl, rfl⟩

end Zstandard
