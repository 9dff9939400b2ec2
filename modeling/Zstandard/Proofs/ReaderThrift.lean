import Zstandard.Proofs.DecompressingReader
import Zstandard.Proofs.Pulling
import Zstandard.Proofs.Thrift

/-!
# Decompressing readers do not spin

A decompressing reader may make a step if it is ahead: there are fewer steps than bytes received,
used and put out (`Able`). A read brings it ahead, and a step that does something keeps it there. A
step that does nothing leaves the reader stalled, so that it reads again before the next one
(`Solvent.fill`). Whoever reads until there is no more, or until a read fails, is served a byte by
each read but the last (`Solvent.readOut`).
-/

namespace Zstandard

namespace DecompressingReader

variable {κ ρ : Type} [Codec κ]

/-- Reads into one room after the other, until a read gives nothing or fails. -/
def readOut [Reader ρ] : (turns : Nat) → (rooms : Nat → Nat) → DecompressingReader κ ρ →
    Except (Halt IoError) Unit × DecompressingReader κ ρ
  | 0, _, d => (.error .outOfTurns, d)
  | turns + 1, rooms, d =>
    match d.read turns (rooms 0) with
    | (.error x, d) => (.error x, d)
    | (.ok chunk, d) =>
      if chunk.size = 0 then (.ok (), d) else readOut turns (fun i => rooms (i + 1)) d

section ReadOut

variable [Reader ρ] {turns : Nat} {rooms : Nat → Nat} {d d' : DecompressingReader κ ρ}
  {chunk : ByteArray}

theorem readOut_of_failure {x : Halt IoError} (h : d.read turns (rooms 0) = (.error x, d')) :
    d.readOut (turns + 1) rooms = (.error x, d') := by
  simp only [readOut, h]

theorem readOut_of_nothing (h : d.read turns (rooms 0) = (.ok chunk, d'))
    (hchunk : chunk.size = 0) :
    d.readOut (turns + 1) rooms = (.ok (), d') := by
  simp only [readOut, h, hchunk, if_true]

theorem readOut_of_chunk (h : d.read turns (rooms 0) = (.ok chunk, d')) (hchunk : chunk.size ≠ 0) :
    d.readOut (turns + 1) rooms = d'.readOut turns fun i => rooms (i + 1) := by
  simp only [readOut, h, hchunk, if_false]

/-- A read that finds room gives out what has been prepared. -/
theorem read_of_prepared {room : Nat} (hroom : room ≠ 0) (h : d.prepare turns = (.ok (), d')) :
    d.read turns room
      = (.ok (d'.output.take room).toBytes, { d' with output := d'.output.drop room }) := by
  rw [read, if_neg hroom, h]

theorem read_of_unprepared {room : Nat} {x : Halt Error} (hroom : room ≠ 0)
    (h : d.prepare turns = (.error x, d')) :
    d.read turns room = (.error (x.map Error.toIoError), d') := by
  rw [read, if_neg hroom, h]

/-- However many turns there are, reading out comes to the same if they are enough. -/
theorem readOut_stands : ∀ (turns : Nat) (rooms : Nat → Nat) (d : DecompressingReader κ ρ),
    Stands (d.readOut turns rooms) (d.readOut (turns + 1) rooms) := by
  intro turns
  induction turns with
  | zero => intro rooms d h; exact absurd rfl h
  | succ turns ih =>
      intro rooms d h
      obtain ⟨result, d', hread⟩ : ∃ result d', d.read turns (rooms 0) = (result, d') :=
        ⟨_, _, rfl⟩
      have hmore : result ≠ .error .outOfTurns → d.read (turns + 1) (rooms 0) = (result, d') := by
        have hstands := Pull.read_stands turns (rooms 0) d
        rw [← read_eq, ← read_eq, hread] at hstands
        exact hstands
      cases result with
      | error x =>
          rw [readOut_of_failure hread] at h ⊢
          rw [readOut_of_failure (hmore fun hx => h (by cases hx; rfl))]
      | ok chunk =>
          have hmore := hmore (by simp)
          by_cases hchunk : chunk.size = 0
          · rw [readOut_of_nothing hread hchunk, readOut_of_nothing hmore hchunk]
          · rw [readOut_of_chunk hread hchunk] at h ⊢
            rw [readOut_of_chunk hmore hchunk]
            exact ih _ d' h

end ReadOut

/-- What holds of a reader whose steps have been paid for, whatever has failed. -/
structure Paid (start : κ) (calls : List StepCall) (served : List UInt8)
    (d : DecompressingReader κ (Observed ρ)) : Prop where
  /-- The calls lead to the codec. -/
  steps : Steps start calls d.session.codec
  /-- Each was paid for when it was made. -/
  thrifty : Each (Thrifty (receivedBy d.reader.calls)) calls
  /-- The reader behind is read from only. -/
  reads : ∀ c ∈ d.reader.calls, c.isRead = true
  /-- What was served is a beginning of what was put out. -/
  served : served <+: givenBy calls

/-- The steps, the traffic, and the bytes that were served up to some state. -/
def spent (calls : List StepCall) (served : List UInt8)
    (d : DecompressingReader κ (Observed ρ)) : Nat :=
  calls.length + traffic d.reader.calls + served.length

/-- What a reader whose steps have been paid for has spent. -/
def Spends (start : κ) (n : Nat) (d : DecompressingReader κ (Observed ρ)) : Prop :=
  ∃ calls served, Paid start calls served d ∧ n = spent calls served d

/-- A reader that has found the end, with nothing left to serve. -/
def Over (start : κ) (due : Nat) (served : List UInt8) (d : DecompressingReader κ (Observed ρ)) :
    Prop :=
  ∃ calls, Paid start calls served d ∧ d.output.toList = [] ∧ d.finished = true
    ∧ due ≤ spent calls served d

/-- The bytes that pay for steps. -/
def funds (calls : List StepCall) (d : DecompressingReader κ (Observed ρ)) : Nat :=
  (receivedBy d.reader.calls).length + (takenBy calls).length + (givenBy calls).length

/-- A reader that may make a step: it has made fewer than can be paid for. -/
structure Able (start : κ) (calls : List StepCall) (served : List UInt8)
    (d : DecompressingReader κ (Observed ρ)) : Prop extends Held start calls served d where
  /-- Each step was paid for when it was made. -/
  thrifty : Each (Thrifty (receivedBy d.reader.calls)) calls
  /-- The reader behind is read from only. -/
  reads : ∀ c ∈ d.reader.calls, c.isRead = true
  /-- There are fewer than can be paid for. -/
  balance : calls.length < funds calls d

/-- A reader that goes on: all its steps can be paid for, and one more, unless it needs input. -/
structure Solvent (start : κ) (calls : List StepCall) (served : List UInt8)
    (d : DecompressingReader κ (Observed ρ)) : Prop extends Serving start calls served d where
  /-- Each step was paid for when it was made. -/
  thrifty : Each (Thrifty (receivedBy d.reader.calls)) calls
  /-- The reader behind is read from only. -/
  reads : ∀ c ∈ d.reader.calls, c.isRead = true
  /-- There are no more than can be paid for. -/
  balance : calls.length ≤ funds calls d
  /-- Without a read there may be one more. -/
  ahead : d.needsInput = false → calls.length < funds calls d

/-- What a call that fills or prepares the output comes to: the reader goes on, and `P` holds of it,
or it has found the end, or it has failed. -/
inductive Fares (start : κ) (served : List UInt8) (begun due : Nat)
    (P : List StepCall → DecompressingReader κ (Observed ρ) → Prop) :
    Except (Halt Error) Unit × DecompressingReader κ (Observed ρ) → Prop
  | goes {calls : List StepCall} {d : DecompressingReader κ (Observed ρ)}
      (solvent : Solvent start calls served d) (made : P calls d) :
      Fares start served begun due P (.ok (), d)
  | ended {d : DecompressingReader κ (Observed ρ)} (atEnd : Over start begun served d) :
      Fares start served begun due P (.ok (), d)
  | failed {x : Halt Error} {d : DecompressingReader κ (Observed ρ)}
      (ceased : Ceased (Spends start) due x d) : Fares start served begun due P (.error x, d)

section Moves

variable {start : κ} {calls : List StepCall} {served : List UInt8} {due due' : Nat}
  {d d' : DecompressingReader κ (Observed ρ)}

theorem Paid.spends (h : Paid start calls served d) : Spends start (spent calls served d) d :=
  ⟨calls, served, h, rfl⟩

theorem Solvent.paid (h : Solvent start calls served d) : Paid start calls served d :=
  ⟨h.feeding.steps, h.thrifty, h.reads, h.output_eq ▸ List.prefix_append _ _⟩

theorem Able.paid (h : Able start calls served d) : Paid start calls served d :=
  ⟨h.feeding.steps, h.thrifty, h.reads, h.output_eq ▸ List.prefix_append _ _⟩

theorem Fares.mono {begun begun' : Nat}
    {P Q : List StepCall → DecompressingReader κ (Observed ρ) → Prop}
    {outcome : Except (Halt Error) Unit × DecompressingReader κ (Observed ρ)}
    (h : Fares start served begun' due' P outcome) (hPQ : ∀ calls d, P calls d → Q calls d)
    (hbegun : begun ≤ begun') (hdue : due ≤ due') : Fares start served begun due Q outcome := by
  cases h with
  | goes hsolvent hmade => exact .goes hsolvent (hPQ _ _ hmade)
  | ended hover =>
      obtain ⟨calls, hpaid, hnil, hend, hle⟩ := hover
      exact .ended ⟨calls, hpaid, hnil, hend, Nat.le_trans hbegun hle⟩
  | failed hceased => exact .failed (hceased.mono hdue)

/-- A step of a reader that may make one is paid for. -/
theorem Able.thrifty_snoc (h : Able start calls served d) (room : Nat)
    (result : Except Error Step) :
    Each (Thrifty (receivedBy d.reader.calls))
      (calls ++ [⟨d.source.pending, room, .feed, result⟩]) := by
  have hbalance := h.balance
  have hsource := congrArg List.length h.source_eq
  rw [List.length_append] at hsource
  refine each_snoc.mpr ⟨h.thrifty, h.source_eq ▸ List.prefix_refl _, ?_⟩
  unfold funds at hbalance
  rw [List.length_append]
  dsimp only
  omega

/-- **A step** keeps a reader going, if it does not fail. -/
theorem Able.advance (h : Able start calls served d) (hempty : d.output.toList = [])
    (hunended : Unended d.reader.calls) (hunfinished : d.finished = false) (due : Nat) :
    (∃ d' call, d.advance = (.ok (), d') ∧ Solvent start (calls ++ [call]) served d'
        ∧ d'.reader = d.reader)
      ∨ ∃ x d', d.advance = (.error x, d') ∧ Ceased (Spends start) due x d' := by
  obtain ⟨result, codec, hstep⟩ : ∃ result codec, Codec.step d.session.codec d.source.pending
      d.session.destination.free .feed = (result, codec) := ⟨_, _, rfl⟩
  have hthrifty := h.thrifty_snoc d.session.destination.free
  cases result with
  | error e =>
      refine Or.inr ⟨_, _, h.advance_error hstep, .of_ne ⟨_, served,
        ⟨h.feeding.steps.snoc hstep, hthrifty _, h.reads, ?_⟩, rfl⟩ (by simp)⟩
      rw [givenBy_append]
      exact h.paid.served.trans (List.prefix_append _ _)
  | ok s =>
      obtain ⟨d', hadvance, hreader, -, -, -, -, -, -, -, hstalled⟩ := h.toHeld.advance_ok hstep
      have hserving := h.toHeld.advance_serving hempty hunended hunfinished hstep hadvance
      have hbalance := h.balance
      -- what the step has used and put out pays for the steps to come
      have hfunds :
          funds (calls ++ [⟨d.source.pending, d.session.destination.free, .feed, .ok s⟩]) d'
            = funds calls d + s.consumed + s.produced.size := by
        rw [funds, funds, hreader, length_takenBy_snoc_ok hstep, length_givenBy_snoc_ok]
        omega
      refine Or.inl ⟨d', _, hadvance, ⟨hserving, ?_, ?_, ?_, fun hneeds => ?_⟩, hreader⟩
      · rw [hreader]
        exact hthrifty _
      · rw [hreader]
        exact h.reads
      · rw [hfunds, List.length_append, List.length_singleton]
        omega
      · -- a reader that needs no input has not stalled, so the step has used or put out something
        have hmoved : 0 < s.consumed + s.produced.size := by
          have hgoing := (Bool.or_eq_false_iff.mp hneeds).2
          rw [hstalled] at hgoing
          simp only [Bool.and_eq_false_iff, beq_eq_false_iff_ne, ByteArray.isEmpty] at hgoing
          omega
        rw [hfunds, List.length_append, List.length_singleton]
        omega

/-- A step has spent something, whatever was spent before it. -/
theorem Able.fares (h : Able start calls served d) (hempty : d.output.toList = [])
    (hunended : Unended d.reader.calls) (hunfinished : d.finished = false) {begun : Nat}
    (hbegun : begun ≤ spent calls served d) :
    Fares start served begun due (fun calls' d' => begun < spent calls' served d') d.advance := by
  rcases h.advance hempty hunended hunfinished due with
    ⟨d', call, hadvance, hsolvent, hreader⟩ | ⟨x, d', hadvance, hceased⟩
  · rw [hadvance]
    refine .goes hsolvent ?_
    unfold spent at hbegun ⊢
    rw [hreader, List.length_append, List.length_singleton]
    omega
  · rw [hadvance]
    exact .failed hceased

end Moves

/-! ## Filling and reading -/

section Loops

variable [Reader ρ] {start : κ} {calls : List StepCall} {served : List UInt8}
  {d : DecompressingReader κ (Observed ρ)}

omit [Reader ρ] in
/-- Reads of the reader behind leave paid what was paid. -/
theorem Solvent.paid_of_refilled {source : SourceBuffer} {reader : Observed ρ}
    {more : List EndCall} (h : Solvent start calls served d)
    (hcalls : reader.calls = d.reader.calls ++ more) (hreads : ∀ c ∈ more, c.isRead = true) :
    Paid start calls served { d with source, reader } where
  steps := h.feeding.steps
  thrifty := by
    show Each (Thrifty (receivedBy reader.calls)) calls
    rw [hcalls, receivedBy_append]
    exact each_thrifty_mono h.thrifty (List.prefix_append _ _)
  reads := by
    show ∀ c ∈ reader.calls, c.isRead = true
    rw [hcalls]
    exact List.forall_mem_append.mpr ⟨h.reads, hreads⟩
  served := h.paid.served

omit [Reader ρ] in
/-- A read that brings something brings the reader ahead. -/
theorem Solvent.able_of_refilled {source : SourceBuffer} {reader : Observed ρ} {n : Nat}
    {more : List EndCall} (h : Solvent start calls served d)
    (hcalls : reader.calls = d.reader.calls ++ more)
    (hmore : SourceBuffer.Refilled d.source source more (.ok (.read n))) :
    Able start calls served { d with source, reader } where
  toHeld := h.toHeld.refilled hcalls hmore
  thrifty := (h.paid_of_refilled hcalls hmore.reads).thrifty
  reads := (h.paid_of_refilled hcalls hmore.reads).reads
  balance := by
    have hbalance := h.balance
    have hpos := List.length_pos_iff.mpr (hmore.read n rfl).1
    show _ < (receivedBy reader.calls).length + _ + _
    unfold funds at hbalance
    rw [hcalls, receivedBy_append, List.length_append]
    omega

/-- **A fill** makes a step, finds the end, or fails. -/
theorem Solvent.fill (turns : Nat) (h : Solvent start calls served d)
    (hempty : d.output.toList = []) :
    Fares start served (spent calls served d) (spent calls served d + turns)
      (fun calls' d' => spent calls served d < spent calls' served d') (d.fill turns) := by
  cases hneeds : d.needsInput with
  | false =>
      have hable : Able start calls served d := ⟨h.toHeld, h.thrifty, h.reads, h.ahead hneeds⟩
      rw [fill_of_not_needsInput hneeds]
      exact hable.fares hempty h.unended h.unfinished (Nat.le_refl _)
  | true =>
      obtain ⟨more, hcalls, hmore⟩ := SourceBuffer.refill_refilled turns d.reader h.fits
      have hbusy := SourceBuffer.refill_busy turns d.source d.reader
      obtain ⟨result, source', reader', hrefill⟩ : ∃ result source' reader',
          d.source.refill turns d.reader = (result, source', reader') := ⟨_, _, _, rfl⟩
      rw [hrefill] at hcalls hmore hbusy
      dsimp only at hcalls hbusy
      have hpaid : Paid start calls served { d with source := source', reader := reader' } :=
        h.paid_of_refilled hcalls hmore.reads
      match result with
      | .error x =>
          rw [fill_of_failure hneeds hrefill]
          refine .failed ⟨_, hpaid.spends, fun hx => ?_⟩
          have htraffic := hbusy.turns (congrArg Except.error hx)
          dsimp only [spent]
          omega
      | .ok .finished =>
          rw [fill_of_finished hneeds hrefill, conclude]
          split
          · split
            · exact .failed (.of_ne hpaid.spends (by simp))
            · refine .ended ⟨calls, ⟨hpaid.steps, hpaid.thrifty, hpaid.reads, hpaid.served⟩, hempty,
                rfl, ?_⟩
              have htraffic := hbusy.le
              dsimp only [spent]
              omega
          · exact .failed (.of_ne hpaid.spends (by simp))
      | .ok (.read n) =>
          rw [fill_of_read hneeds hrefill]
          have hunended : Unended reader'.calls := by
            rw [hcalls]
            exact h.unended.append (hmore.read n rfl).2
          refine (h.able_of_refilled hcalls hmore).fares hempty hunended h.unfinished ?_
          have htraffic := hbusy.le
          dsimp only [spent]
          omega

/-- **Preparing output** makes some, finds the end, or fails. -/
theorem Solvent.prepare : ∀ (turns : Nat) {calls : List StepCall}
    {d : DecompressingReader κ (Observed ρ)}, Solvent start calls served d →
    Fares start served (spent calls served d) (spent calls served d + turns - 1)
      (fun calls' d' => d'.output.toList ≠ [] ∧ spent calls served d ≤ spent calls' served d')
      (d.prepare turns) := by
  intro turns
  induction turns with
  | zero =>
      intro calls d h
      exact .failed (.of_le h.paid.spends (Nat.sub_le _ _))
  | succ turns ih =>
      intro calls d h
      cases hready : !d.output.isEmpty || d.finished with
      | true =>
          rw [prepare_of_ready hready]
          rw [h.unfinished, Bool.or_false, Bool.not_eq_true'] at hready
          exact .goes h ⟨toList_ne_nil_of_isEmpty hready, Nat.le_refl _⟩
      | false =>
          have hunready := Bool.or_eq_false_iff.mp hready
          rw [Bool.not_eq_false'] at hunready
          have hfares := h.fill turns (toList_of_isEmpty hunready.1)
          obtain ⟨result, d₁, hfill⟩ : ∃ result d₁, d.fill turns = (result, d₁) := ⟨_, _, rfl⟩
          rw [hfill] at hfares
          cases hfares with
          | goes h₁ hspent =>
              rw [prepare_of_fill hready hfill]
              exact (ih h₁).mono (fun _ _ hmade => ⟨hmade.1, by omega⟩) (by omega) (by omega)
          | ended hover =>
              -- the next turn finds that the end was reached, if there is one
              rw [prepare_of_fill hready hfill]
              obtain ⟨calls₁, hpaid, hnil, hend, hdue⟩ := hover
              cases turns with
              | zero => exact .failed (.of_le hpaid.spends hdue)
              | succ turns =>
                  rw [prepare_of_ready (by rw [hend, Bool.or_true])]
                  exact .ended ⟨calls₁, hpaid, hnil, hend, hdue⟩
          | failed hceased =>
              rw [prepare_of_failure hready hfill]
              exact .failed (hceased.mono (by omega))

omit [Reader ρ] in
/-- Output that is given out has been served. -/
theorem Solvent.serve (h : Solvent start calls served d) (room : Nat) :
    Solvent start calls (served ++ d.output.toList.take room)
      { d with output := d.output.drop room } :=
  ⟨h.toServing.serve room, h.thrifty, h.reads, h.balance, h.ahead⟩

/-- **Reading out** spends something in each of its turns, but for two. -/
theorem Solvent.readOut : ∀ (turns : Nat) (rooms : Nat → Nat) {calls : List StepCall}
    {served : List UInt8} {d : DecompressingReader κ (Observed ρ)}, Solvent start calls served d →
    ∃ calls' served', Paid start calls' served' (d.readOut turns rooms).2
      ∧ ((d.readOut turns rooms).1 = .error .outOfTurns →
        spent calls served d + turns - 2 ≤ spent calls' served' (d.readOut turns rooms).2) := by
  intro turns
  induction turns with
  | zero =>
      intro rooms calls served d h
      exact ⟨calls, served, h.paid, fun _ => Nat.sub_le _ _⟩
  | succ turns ih =>
      intro rooms calls served d h
      by_cases hroom : rooms 0 = 0
      · have hread : d.read turns (rooms 0) = (.ok .empty, d) := by rw [read, if_pos hroom]
        rw [readOut_of_nothing hread rfl]
        exact ⟨calls, served, h.paid, by simp⟩
      have hfares := h.prepare turns
      obtain ⟨result, d₁, hprepare⟩ : ∃ result d₁, d.prepare turns = (result, d₁) := ⟨_, _, rfl⟩
      rw [hprepare] at hfares
      cases hfares with
      | goes h₁ hmade =>
          obtain ⟨hsome, hspent⟩ := hmade
          have hread := read_of_prepared hroom hprepare
          have hchunk : (d₁.output.take (rooms 0)).toBytes.size ≠ 0 :=
            fun hzero => hsome (toList_of_take hroom hzero)
          rw [readOut_of_chunk hread hchunk]
          obtain ⟨calls', served', hpaid, hdue⟩ := ih (fun i => rooms (i + 1)) (h₁.serve (rooms 0))
          refine ⟨calls', served', hpaid, fun hcut => Nat.le_trans ?_ (hdue hcut)⟩
          -- at least one byte was served
          have hlength : (d₁.output.toList.take (rooms 0)).length
              = (d₁.output.take (rooms 0)).toBytes.size := by
            rw [← Slice.toList_take]
            rfl
          dsimp only [spent] at hspent ⊢
          rw [List.length_append, hlength]
          omega
      | ended hover =>
          obtain ⟨calls₁, hpaid, hnil, -, -⟩ := hover
          have hread := read_of_prepared hroom hprepare
          have hchunk : (d₁.output.take (rooms 0)).toBytes.size = 0 := by
            show (d₁.output.take (rooms 0)).toList.length = 0
            rw [Slice.toList_take, hnil, List.take_nil]
            rfl
          rw [readOut_of_nothing hread hchunk]
          exact ⟨calls₁, served, ⟨hpaid.steps, hpaid.thrifty, hpaid.reads, hpaid.served⟩, by simp⟩
      | @failed x _ hceased =>
          obtain ⟨_, ⟨calls₁, served₁, hpaid, rfl⟩, hdue⟩ := hceased
          rw [readOut_of_failure (read_of_unprepared hroom hprepare)]
          refine ⟨calls₁, served₁, hpaid, fun hcut => ?_⟩
          cases x with
          | failed e => cases hcut
          | outOfTurns =>
              have hspent := hdue rfl
              dsimp only
              omega

end Loops

/-- A new reader with room in its destination owes nothing. -/
theorem solvent_new (codec : κ) (reader : ρ) (sourceLength : Nat) {destinationLength : Nat}
    (hroom : 0 < destinationLength) :
    Solvent codec [] [] (⟨.new reader, ⟨.empty, 0, sourceLength⟩,
      ⟨codec, ⟨.empty, destinationLength⟩, .active⟩, .empty, false, false, false⟩ :
      DecompressingReader κ (Observed ρ)) := by
  refine ⟨serving_new codec reader sourceLength hroom, each_nil, by simp [Observed.new],
    Nat.zero_le _, fun hneeds => ?_⟩
  -- nothing is pending at first, so a new reader needs input
  cases hneeds

end DecompressingReader

end Zstandard
