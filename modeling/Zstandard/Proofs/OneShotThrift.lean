import Zstandard.Proofs.OneShot
import Zstandard.Proofs.Thrift

/-!
# One-shot operations do not spin

The steps of a one-shot operation are paid for on credit, as those of a pump are. A step that makes
progress pays for itself. One that makes none is made on a unit of credit (`Solvent.step`), and
growing the destination gives it back (`Solvent.grow`): a destination that can be grown has been
put something into since it last grew, and none of that has paid for a step yet. So no loop needs
more than one unit.
-/

namespace Zstandard

/-- A buffer that can be grown has not a whole unit free, and has one when it has grown. -/
theorem GrowableBuffer.free_of_grow {memory : Memory} {b b' : GrowableBuffer}
    (h : b.grow memory = .ok b') : b.free ≠ b.unit ∧ b'.free = b.unit := by
  unfold grow at h
  split at h
  · cases h
  · next hne =>
    dsimp only at h
    split at h <;> cases h
    exact ⟨hne, Nat.add_sub_cancel_left _ _⟩

namespace OneShot

variable {κ : Type} [Codec κ]

/-- What holds of an operation whose steps have been paid for, whatever has failed. -/
structure Paid (start : κ) (source : List UInt8) (calls : List StepCall) (o : OneShot κ) :
    Prop where
  /-- The calls lead to the codec. -/
  steps : Steps start calls o.codec
  /-- Each was paid for when it was made. -/
  thrifty : Each (Thrifty source) calls

/-- How many steps an operation has made that have been paid for. -/
def Spends (start : κ) (source : List UInt8) (n : Nat) (o : OneShot κ) : Prop :=
  ∃ calls, Paid start source calls o ∧ n = calls.length

/-- An operation whose steps have been paid for, with some credit: by each byte that was used or put
out, and once more by each byte that was put out before the destination last grew. -/
structure Solvent (start : κ) (source : List UInt8) (calls : List StepCall) (credit : Nat)
    (o : OneShot κ) : Prop extends Paid start source calls o where
  /-- The destination keeps to its bounds. -/
  fits : o.destination.Fits
  /-- There are no more than what was used and put out and the credit pay for. -/
  balance : calls.length + o.destination.unit
    ≤ (takenBy calls).length + 2 * (givenBy calls).length + o.destination.free + credit

section Moves

variable {start : κ} {source : List UInt8} {calls : List StepCall} {credit : Nat}
  {o : OneShot κ} {x : Halt Error}

theorem Paid.spends (h : Paid start source calls o) : Spends start source calls.length o :=
  ⟨calls, h, rfl⟩

/-- A turn that has made a step has done what was due in it. -/
theorem ceased_of_succ {call : StepCall} {turns : Nat}
    (h : Ceased (Spends start source) ((calls ++ [call]).length + turns) x o) :
    Ceased (Spends start source) (calls.length + (turns + 1)) x o := by
  refine h.mono ?_
  rw [List.length_append, List.length_singleton]
  omega

theorem step_fails (input : Slice) (directive : Directive) (o : OneShot κ) :
    Ensures (step input directive) o (fun _ _ => True) (fun x _ => x ≠ .outOfTurns) := by
  obtain ⟨codec, destination, log⟩ := o
  refine Ensures.intro (fun _ _ _ => trivial) (fun x o' hw => ?_)
  dsimp only [step] at hw
  split at hw <;> cases hw
  simp

omit [Codec κ] in
theorem grow_fails (memory : Memory) (o : OneShot κ) :
    Ensures (grow memory) o (fun _ _ => True) (fun x _ => x ≠ .outOfTurns) := by
  obtain ⟨codec, destination, log⟩ := o
  refine Ensures.intro (fun _ _ _ => trivial) (fun x o' hw => ?_)
  dsimp only [grow] at hw
  split at hw <;> cases hw
  simp

/-- A step that is offered what comes next is paid for. -/
theorem Solvent.thrifty_snoc (h : Solvent start source calls 0 o) {input : Slice}
    (hoffered : takenBy calls ++ input.toList <+: source) (room : Nat) (directive : Directive)
    (result : Except Error Step) :
    Each (Thrifty source) (calls ++ [⟨input, room, directive, result⟩]) := by
  refine each_snoc.mpr ⟨h.thrifty, hoffered, ?_⟩
  have hbalance := h.balance
  have hfree : o.destination.free ≤ o.destination.unit := by
    have := h.fits.length_le
    unfold GrowableBuffer.free
    omega
  rw [List.length_append]
  omega

/-- **A step** takes one unit of credit, unless it makes progress. -/
theorem Solvent.step (h : Solvent start source calls 0 o) {input : Slice}
    (hoffered : takenBy calls ++ input.toList <+: source) (directive : Directive) (due : Nat) :
    Ensures (step input directive) o
      (fun s o' => ∃ call : StepCall, call.taken = input.toList.take s.consumed
        ∧ Solvent start source (calls ++ [call]) 1 o'
        ∧ (s.madeProgress = true → Solvent start source (calls ++ [call]) 0 o'))
      (fun x o' => Ceased (Spends start source) due x o') := by
  have hthrifty := h.thrifty_snoc hoffered o.destination.free directive
  refine ((step_ensures input directive o).and (step_fails input directive o)).mono ?_ ?_
  · intro s o' hdone
    obtain ⟨⟨hstep, hdest⟩, -⟩ := hdone
    have hle := Codec.produced_le hstep
    have hpaid : Paid start source (calls ++ [⟨input, _, directive, .ok s⟩]) o' :=
      ⟨h.steps.snoc hstep, hthrifty _⟩
    have hfits : o'.destination.Fits := hdest ▸ h.fits.append hle
    -- what was put out is no longer free, so it counts twice against the step
    have hbalance := h.balance
    have hfree : o'.destination.free = o.destination.free - s.produced.size := by
      rw [hdest, GrowableBuffer.free, GrowableBuffer.size_append]
      exact Nat.sub_add_eq _ _ _
    have hunit : o'.destination.unit = o.destination.unit := by rw [hdest]; rfl
    refine ⟨_, rfl, ⟨hpaid, hfits, ?_⟩, fun hprogress => ⟨hpaid, hfits, ?_⟩⟩
    all_goals
      rw [hfree, hunit, length_takenBy_snoc_ok hstep, length_givenBy_snoc_ok, List.length_append,
        List.length_singleton]
    · omega
    · simp only [Step.madeProgress, Bool.or_eq_true, bne_iff_ne] at hprogress
      omega
  · intro x o' hfailed
    obtain ⟨⟨e, hstep⟩, hx⟩ := hfailed
    have hpaid : Paid start source (calls ++ [_]) o' := ⟨h.steps.snoc hstep, hthrifty _⟩
    exact .of_ne hpaid.spends hx

/-- **Growing** gives one unit of credit back. -/
theorem Solvent.grow (h : Solvent start source calls 1 o) (memory : Memory) (due : Nat) :
    Ensures (grow memory) o (fun _ o' => Solvent start source calls 0 o')
      (fun x o' => Ceased (Spends start source) due x o') := by
  refine ((grow_ensures memory o).and (grow_fails memory o)).mono ?_ ?_
  · intro _ o' hdone
    obtain ⟨⟨hcodec, hgrow⟩, -⟩ := hdone
    obtain ⟨hfits, hbytes, hunit, -⟩ := h.fits.grow hgrow
    refine ⟨⟨hcodec ▸ h.steps, h.thrifty⟩, hfits, ?_⟩
    -- less than a unit was free before, and a unit is free now
    obtain ⟨hne, hfree⟩ := GrowableBuffer.free_of_grow hgrow
    have hbalance := h.balance
    have hlength := h.fits.length_le
    rw [hfree, hunit]
    unfold GrowableBuffer.free at hbalance hne
    omega
  · intro x o' hfailed
    obtain ⟨hcodec, hx⟩ := hfailed
    have hpaid : Paid start source calls o' := ⟨hcodec ▸ h.steps, h.thrifty⟩
    exact .of_ne hpaid.spends hx

end Moves

/-! ## Loops -/

section Loops

variable {start : κ} {source : List UInt8} {memory : Memory}

/-- What is offered next, when a step has used some of what was offered. -/
theorem offered_drop {calls : List StepCall} {call : StepCall} {input : Slice} {n : Nat}
    (hoffered : takenBy calls ++ input.toList <+: source)
    (htaken : call.taken = input.toList.take n) :
    takenBy (calls ++ [call]) ++ (input.drop n).toList <+: source := by
  rw [takenBy_append, takenBy_cons, takenBy_nil, List.append_nil, htaken, Slice.toList_drop,
    List.append_assoc, List.take_append_drop]
  exact hoffered

/-- **Feeding one frame** takes no credit: a step without progress is followed by growing. -/
theorem feedAll_solvent : ∀ (turns : Nat) {remaining : Slice} {calls : List StepCall}
    {o : OneShot κ}, Solvent start source calls 0 o →
    takenBy calls ++ remaining.toList <+: source →
    Ensures (feedAll memory turns remaining) o
      (fun _ o' => ∃ calls', Solvent start source calls' 0 o' ∧ takenBy calls' <+: source)
      (fun x o' => Ceased (Spends start source) (calls.length + turns) x o') := by
  intro turns
  -- each turn makes one step, and what it takes is given back before the next one
  induction turns with
  | zero =>
      intro remaining calls o h _
      exact Ensures.throw (.of_le h.toPaid.spends (Nat.le_refl _))
  | succ turns ih =>
      intro remaining calls o h hoffered
      show Ensures (if remaining.isEmpty = true then _ else _) o _ _
      split
      · next hempty =>
        rw [toList_of_isEmpty hempty, List.append_nil] at hoffered
        exact Ensures.pure ⟨calls, h, hoffered⟩
      · refine Ensures.bind (h.step hoffered .feed _) ?_
        intro s o₁ hdone
        obtain ⟨call, htaken, h₁, hprogress⟩ := hdone
        have hoffered₁ := offered_drop hoffered htaken
        have hrest : ∀ {o₂ : OneShot κ}, Solvent start source (calls ++ [call]) 0 o₂ →
            Ensures (feedAll memory turns (remaining.drop s.consumed)) o₂
              (fun _ o' => ∃ calls', Solvent start source calls' 0 o' ∧ takenBy calls' <+: source)
              (fun x o' => Ceased (Spends start source) (calls.length + (turns + 1)) x o') := by
          intro o₂ h₂
          exact (ih h₂ hoffered₁).mono (fun _ _ hq => hq) fun _ _ hceased => ceased_of_succ hceased
        show Ensures (if (o₁.destination.isFull || !s.madeProgress) = true then _ else _) o₁ _ _
        split
        · exact Ensures.bind (h₁.grow memory _) fun _ o₂ h₂ => hrest h₂
        · next hgo =>
          have hmade : s.madeProgress = true := by
            simp only [Bool.or_eq_true, not_or, Bool.not_eq_true, Bool.not_eq_false'] at hgo
            exact hgo.2
          exact hrest (hprogress hmade)

/-- **Feeding all frames** takes no credit: each step makes progress, or has filled the
destination, but for the last. -/
theorem feedFrames_solvent : ∀ (turns : Nat) {remaining : Slice} {calls : List StepCall}
    {o : OneShot κ}, Solvent start source calls 0 o →
    takenBy calls ++ remaining.toList <+: source →
    Ensures (feedFrames memory turns remaining) o
      (fun _ o' => ∃ calls', Paid start source calls' o')
      (fun x o' => Ceased (Spends start source) (calls.length + turns) x o') := by
  intro turns
  induction turns with
  | zero =>
      intro remaining calls o h _
      exact Ensures.throw (.of_le h.toPaid.spends (Nat.le_refl _))
  | succ turns ih =>
      intro remaining calls o h hoffered
      refine Ensures.bind (h.step hoffered .feed _) ?_
      intro s o₁ hdone
      obtain ⟨call, htaken, h₁, hprogress⟩ := hdone
      have hoffered₁ := offered_drop hoffered htaken
      have hrest : ∀ {o₂ : OneShot κ}, Solvent start source (calls ++ [call]) 0 o₂ →
          Ensures (feedFrames memory turns (remaining.drop s.consumed)) o₂
            (fun _ o' => ∃ calls', Paid start source calls' o')
            (fun x o' => Ceased (Spends start source) (calls.length + (turns + 1)) x o') := by
        intro o₂ h₂
        exact (ih h₂ hoffered₁).mono (fun _ _ hq => hq) fun _ _ hceased => ceased_of_succ hceased
      show Ensures (if o₁.destination.isFull = true then _ else _) o₁ _ _
      split
      · exact Ensures.bind (h₁.grow memory _) fun _ o₂ h₂ => hrest h₂
      · split
        · exact Ensures.pure ⟨_, h₁.toPaid⟩
        · split
          · next hmade => exact hrest (hprogress hmade)
          · exact Ensures.throw (.of_ne h₁.toPaid.spends (by simp))

/-- **Closing the frame** takes no credit: each step but the last is followed by growing. -/
theorem finish_solvent : ∀ (turns : Nat) {calls : List StepCall} {o : OneShot κ},
    Solvent start source calls 0 o → takenBy calls <+: source →
    Ensures (finish memory turns) o (fun _ o' => ∃ calls', Paid start source calls' o')
      (fun x o' => Ceased (Spends start source) (calls.length + turns) x o') := by
  intro turns
  induction turns with
  | zero =>
      intro calls o h _
      exact Ensures.throw (.of_le h.toPaid.spends (Nat.le_refl _))
  | succ turns ih =>
      intro calls o h htakenBy
      have hoffered : takenBy calls ++ Slice.empty.toList <+: source := by
        rw [show Slice.empty.toList = [] from rfl, List.append_nil]
        exact htakenBy
      refine Ensures.bind (h.step hoffered .finish _) ?_
      intro s o₁ hdone
      obtain ⟨call, htaken, h₁, -⟩ := hdone
      cases s.completion with
      | done => exact Ensures.pure ⟨_, h₁.toPaid⟩
      | pending =>
          refine Ensures.bind (h₁.grow memory _) fun _ o₂ h₂ => ?_
          have htakenBy₁ : takenBy (calls ++ [call]) <+: source := by
            have hoffered₁ := offered_drop hoffered htaken
            exact (List.prefix_append _ _).trans hoffered₁
          exact (ih h₂ htakenBy₁).mono (fun _ _ hq => hq) fun _ _ hceased => ceased_of_succ hceased

end Loops

/-! ## Whole operations -/

section Operations

variable {start : κ} {memory : Memory}

/-- A new operation owes nothing. -/
theorem solvent_new {unit : Nat} (codec : κ) (source : List UInt8) (log : Log) (hunit : 0 < unit) :
    Solvent codec source [] 0 (⟨codec, ⟨.empty, unit, unit⟩, log⟩ : OneShot κ) where
  steps := .nil
  thrifty := each_nil
  fits := GrowableBuffer.fits_new hunit
  balance := by
    show 0 + unit ≤ 0 + 2 * 0 + (unit - 0) + 0
    omega

/-- **Compressing** an array is paid for, and makes a step in each turn. -/
theorem compress_paid (turns : Nat) {remaining : Slice} {o : OneShot κ}
    (h : Solvent start remaining.toList [] 0 o) :
    Ensures (do feedAll memory turns remaining; finish memory turns) o
      (fun _ o' => ∃ calls, Paid start remaining.toList calls o')
      (fun x o' => Ceased (Spends start remaining.toList) turns x o') := by
  refine Ensures.bind ((feedAll_solvent turns h (List.prefix_refl _)).mono (fun _ _ hq => hq) ?_) ?_
  · intro x o₁ hceased
    exact hceased.mono (Nat.le_add_left _ _)
  · intro _ o₁ hfed
    obtain ⟨calls, h₁, htaken⟩ := hfed
    refine (finish_solvent turns h₁ htaken).mono (fun _ _ hq => hq) ?_
    intro x o₂ hceased
    exact hceased.mono (Nat.le_add_left _ _)

/-- **Decompressing** an array is paid for, and makes a step in each turn. -/
theorem decompress_paid (turns : Nat) {remaining : Slice} {o : OneShot κ}
    (h : Solvent start remaining.toList [] 0 o) :
    Ensures (do feedFrames memory turns remaining; endOfInput) o
      (fun _ o' => ∃ calls, Paid start remaining.toList calls o')
      (fun x o' => Ceased (Spends start remaining.toList) turns x o') := by
  refine Ensures.bind ((feedFrames_solvent turns h (List.prefix_refl _)).mono (fun _ _ hq => hq) ?_)
    ?_
  · intro x o₁ hceased
    exact hceased.mono (Nat.le_add_left _ _)
  · intro _ o₁ hfed
    obtain ⟨calls, h₁⟩ := hfed
    refine (endOfInput_ensures o₁).mono ?_ ?_
    · intro _ o₂ hdone
      exact ⟨calls, hdone.1 ▸ h₁⟩
    · intro x o₂ hrefused
      obtain ⟨ho, e, hx, -⟩ := hrefused
      rw [ho, hx]
      exact .of_ne h₁.spends (by simp)

end Operations

end OneShot

end Zstandard
