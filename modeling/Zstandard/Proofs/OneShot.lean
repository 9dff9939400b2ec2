import Zstandard.OneShot
import Zstandard.Proofs.Buffers
import Zstandard.Proofs.Calls

/-!
# What a one-shot operation keeps

The codec is fed the source in order, and the growing destination holds just what it put out. `Fed`
says so of an operation under way, with what remains of the source; each loop keeps it
(`feedFrames_ensures`, `feedAll_ensures`) until nothing remains.
-/

namespace Zstandard

namespace OneShot

variable {κ : Type} [Codec κ]

/-- An operation under way: what remains of `source` has not been fed, all output is in the
destination, and nothing has failed. -/
structure Fed (start : κ) (source : List UInt8) (calls : List StepCall) (remaining : Slice)
    (o : OneShot κ) : Prop where
  /-- The codec was fed the source. -/
  feeding : Feeding start source calls o.codec
  /-- The source is what was used, and what remains. -/
  source_eq : source = takenBy calls ++ remaining.toList
  /-- The output is in the destination. -/
  output : o.destination.bytes.data.toList = givenBy calls
  /-- The destination keeps to its bounds. -/
  fits : o.destination.Fits
  /-- The destination is not full. -/
  room : o.destination.isFull = false

/-- An operation that may have failed, and has fed nothing but the source, in order. -/
def Stopped (start : κ) (source : List UInt8) (o : OneShot κ) : Prop :=
  ∃ calls, Steps start calls o.codec ∧ Each (Feeds source) calls

/-! ## Single moves -/

/-- A step changes the codec and adds to the destination. -/
theorem step_ensures (input : Slice) (directive : Directive) (o : OneShot κ) :
    Ensures (step input directive) o
      (fun s o' => Codec.step o.codec input o.destination.free directive = (.ok s, o'.codec)
        ∧ o'.destination = o.destination.append s.produced)
      (fun _ o' => ∃ e, Codec.step o.codec input o.destination.free directive
        = (.error e, o'.codec)) := by
  obtain ⟨codec, destination, log⟩ := o
  refine Ensures.intro (fun s o' hw => ?_) (fun x o' hw => ?_)
  · dsimp only [step] at hw
    split at hw <;> cases hw
    next heq => exact ⟨heq, rfl⟩
  · dsimp only [step] at hw
    split at hw <;> cases hw
    next e _ heq => exact ⟨e, heq⟩

omit [Codec κ] in
/-- Growing changes the destination only. -/
theorem grow_ensures (memory : Memory) (o : OneShot κ) :
    Ensures (grow memory) o
      (fun _ o' => o'.codec = o.codec ∧ o.destination.grow memory = .ok o'.destination)
      (fun _ o' => o'.codec = o.codec) := by
  obtain ⟨codec, destination, log⟩ := o
  refine Ensures.intro (fun _ o' hw => ?_) (fun x o' hw => ?_)
  · dsimp only [grow] at hw
    split at hw <;> cases hw
    next heq => exact ⟨rfl, heq⟩
  · dsimp only [grow] at hw
    split at hw <;> cases hw
    rfl

/-! ## Feeding the source -/

/-- What is fed is a beginning of what remains. -/
theorem Fed.feeds_next {start : κ} {source : List UInt8} {calls : List StepCall}
    {remaining : Slice} {o : OneShot κ} (h : Fed start source calls remaining o)
    (result : Except Error Step) :
    Each (Feeds source) (calls ++ [⟨remaining, o.destination.free, .feed, result⟩]) :=
  each_snoc.mpr ⟨h.feeding.feeds, rfl, h.fits.free_pos_iff.mpr h.room,
    h.source_eq ▸ List.prefix_refl _⟩

/-- A step that succeeds leaves the rest of the source. It leaves room in the destination exactly if
it left some of its own. -/
theorem Fed.stepped {start : κ} {source : List UInt8} {calls : List StepCall} {remaining : Slice}
    {o o' : OneShot κ} {s : Step} (h : Fed start source calls remaining o)
    (hstep : Codec.step o.codec remaining o.destination.free .feed = (.ok s, o'.codec))
    (hdest : o'.destination = o.destination.append s.produced) :
    ∃ calls', Feeding start source calls' o'.codec
      ∧ source = takenBy calls' ++ (remaining.drop s.consumed).toList
      ∧ o'.destination.bytes.data.toList = givenBy calls' ∧ o'.destination.Fits
      ∧ (o'.destination.isFull = false → (remaining.drop s.consumed).toList = [] →
          Quiescent calls') := by
  have hle := Codec.produced_le hstep
  refine ⟨_, h.feeding.snoc (h.fits.free_pos_iff.mpr h.room) (h.source_eq ▸ List.prefix_refl _)
    hstep, ?_, ?_, hdest ▸ h.fits.append hle, fun hroom hnil => ?_⟩
  · rw [takenBy_snoc_ok, Slice.toList_drop, List.append_assoc, List.take_append_drop, h.source_eq]
  · rw [hdest, GrowableBuffer.toList_append, h.output, givenBy_snoc_ok]
  · rw [hdest] at hroom
    exact quiescent_snoc ((h.fits.isFull_append hle).mp hroom) hnil

/-- A destination that was grown has room for the next step. -/
theorem grow_fed (memory : Memory) {start : κ} {source : List UInt8} {calls : List StepCall}
    {remaining : Slice} {o : OneShot κ} (hfeeding : Feeding start source calls o.codec)
    (hsource : source = takenBy calls ++ remaining.toList)
    (houtput : o.destination.bytes.data.toList = givenBy calls) (hfits : o.destination.Fits) :
    Ensures (grow memory) o (fun _ o' => Fed start source calls remaining o')
      (fun _ o' => Stopped start source o') := by
  refine (grow_ensures memory o).mono ?_ ?_
  · rintro _ o₁ ⟨hcodec, hgrow⟩
    obtain ⟨hfits₁, hbytes, -, hroom⟩ := hfits.grow hgrow
    exact ⟨hcodec ▸ hfeeding, hsource, hbytes ▸ houtput, hfits₁, hroom⟩
  · intro _ o₁ hcodec
    exact ⟨calls, hcodec ▸ hfeeding.steps, hfeeding.feeds⟩

/-- **Feeding all frames.** All of the source is used, and the last call left room. -/
theorem feedFrames_ensures {memory : Memory} {start : κ} {source : List UInt8} :
    ∀ (turns : Nat) {remaining : Slice} {calls : List StepCall} {o : OneShot κ},
    Fed start source calls remaining o →
    Ensures (feedFrames memory turns remaining) o
      (fun _ o' => ∃ calls', Feeding start source calls' o'.codec ∧ takenBy calls' = source
        ∧ o'.destination.bytes.data.toList = givenBy calls' ∧ Quiescent calls')
      (fun _ o' => Stopped start source o') := by
  intro turns
  -- `Fed` is the invariant of the loop, and what remains is one of its arguments
  induction turns with
  | zero =>
      intro remaining calls o h
      exact Ensures.throw ⟨calls, h.feeding.steps, h.feeding.feeds⟩
  | succ turns ih =>
      intro remaining calls o h
      refine Ensures.bind ((step_ensures remaining .feed o).mono (fun _ _ hq => hq) ?_) ?_
      · rintro _ o₁ ⟨e, hstep⟩
        exact ⟨_, h.feeding.steps.snoc hstep, h.feeds_next (.error e)⟩
      · rintro s o₁ ⟨hstep, hdest⟩
        obtain ⟨calls₁, hfeeding, hsource, houtput, hfits, hquiescent⟩ := h.stepped hstep hdest
        show Ensures (if o₁.destination.isFull = true then _ else _) o₁ _ _
        split
        · -- a full destination is grown before the next step, even when nothing remains
          exact Ensures.bind (grow_fed memory hfeeding hsource houtput hfits) fun _ _ h₂ => ih h₂
        · next hfull =>
          have hroom : o₁.destination.isFull = false := by simpa using hfull
          split
          · next hempty =>
            have hnil := toList_of_isEmpty hempty
            refine Ensures.pure ⟨calls₁, hfeeding, ?_, houtput, hquiescent hroom hnil⟩
            rw [hsource, hnil, List.append_nil]
          · split
            · exact ih ⟨hfeeding, hsource, houtput, hfits, hroom⟩
            · exact Ensures.throw ⟨calls₁, hfeeding.steps, hfeeding.feeds⟩

/-- **Feeding one frame.** All of the source is used, and there is room. -/
theorem feedAll_ensures {memory : Memory} {start : κ} {source : List UInt8} :
    ∀ (turns : Nat) {remaining : Slice} {calls : List StepCall} {o : OneShot κ},
    Fed start source calls remaining o →
    Ensures (feedAll memory turns remaining) o
      (fun _ o' => ∃ calls' rest, Fed start source calls' rest o' ∧ takenBy calls' = source)
      (fun _ o' => Stopped start source o') := by
  intro turns
  induction turns with
  | zero =>
      intro remaining calls o h
      exact Ensures.throw ⟨calls, h.feeding.steps, h.feeding.feeds⟩
  | succ turns ih =>
      intro remaining calls o h
      show Ensures (if remaining.isEmpty = true then _ else _) o _ _
      split
      · next hempty =>
        refine Ensures.pure ⟨calls, remaining, h, ?_⟩
        rw [h.source_eq, toList_of_isEmpty hempty, List.append_nil]
      · refine Ensures.bind ((step_ensures remaining .feed o).mono (fun _ _ hq => hq) ?_) ?_
        · rintro _ o₁ ⟨e, hstep⟩
          exact ⟨_, h.feeding.steps.snoc hstep, h.feeds_next (.error e)⟩
        · rintro s o₁ ⟨hstep, hdest⟩
          obtain ⟨calls₁, hfeeding, hsource, houtput, hfits, _⟩ := h.stepped hstep hdest
          show Ensures (if (o₁.destination.isFull || !s.madeProgress) = true then _ else _) o₁ _ _
          split
          · exact Ensures.bind (grow_fed memory hfeeding hsource houtput hfits) fun _ _ h₂ => ih h₂
          · next hgo =>
            have hroom : o₁.destination.isFull = false := by
              simp only [Bool.or_eq_true, not_or, Bool.not_eq_true] at hgo
              exact hgo.1
            exact ih ⟨hfeeding, hsource, houtput, hfits, hroom⟩

/-- The end of the input is asked for, and changes nothing. -/
theorem endOfInput_ensures (o : OneShot κ) :
    Ensures endOfInput o
      (fun _ o' => o' = o ∧ Codec.endOfInput o.codec = .ok ())
      (fun x o' => o' = o ∧ ∃ e, x = .failed e ∧ Codec.endOfInput o.codec = .error e) := by
  refine Ensures.intro (fun _ o' hw => ?_) (fun x o' hw => ?_)
  · unfold endOfInput at hw
    split at hw <;> cases hw
    next h => exact ⟨rfl, h⟩
  · unfold endOfInput at hw
    split at hw <;> cases hw
    next e h => exact ⟨rfl, e, rfl, h⟩

/-- A new operation with room in its destination has all of the source before it. -/
theorem fed_new {unit : Nat} (codec : κ) (source : Slice) (log : Log) (hunit : 0 < unit) :
    Fed codec source.toList [] source ⟨codec, ⟨.empty, unit, unit⟩, log⟩ :=
  ⟨.nil, rfl, rfl, GrowableBuffer.fits_new hunit, beq_eq_false_iff_ne.mpr (Nat.ne_of_lt hunit)⟩

end OneShot

end Zstandard
