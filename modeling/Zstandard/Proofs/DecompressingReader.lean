import Zstandard.Adapter.Reading
import Zstandard.Proofs.Session

/-!
# What a decompressing reader keeps

Between two pieces of output, a decompressing reader has handed everything the codec put out to
`output` and from there to its caller. `Held` says so; `Serving` adds what the flags remember of the
last call, so that `needsInput` means that the codec has nothing more to give. A fill keeps
`Serving`, or ends the reader at a frame boundary with all input used (`Concluded`).
-/

namespace Zstandard

namespace DecompressingReader

variable {κ ρ : Type} [Codec κ]

/-- What was received was used or is pending; what was put out was served or is in the output. -/
structure Held (start : κ) (calls : List StepCall) (served : List UInt8)
    (d : DecompressingReader κ (Observed ρ)) : Prop where
  /-- The codec was fed what was received. -/
  feeding : Feeding start (receivedBy d.reader.calls) calls d.session.codec
  /-- What was received has been used, or is pending. -/
  source_eq : receivedBy d.reader.calls = takenBy calls ++ d.source.pending.toList
  /-- What was put out has been served, or is in the output. -/
  output_eq : givenBy calls = served ++ d.output.toList
  /-- The source keeps to its bounds. -/
  fits : d.source.Fits
  /-- The session is drained. -/
  drained : d.session.destination.bytes = .empty
  /-- The session has room. -/
  room : 0 < d.session.destination.capacity
  /-- The session is active. -/
  active : d.session.phase = .active

/-- The reader goes on, and its flags tell what became of the last call. -/
structure Serving (start : κ) (calls : List StepCall) (served : List UInt8)
    (d : DecompressingReader κ (Observed ρ)) : Prop extends Held start calls served d where
  /-- What the last call left of its input is what is pending. -/
  left : ∀ last ∈ calls.getLast?, last.input.toList = last.taken ++ d.source.pending.toList
  /-- If the last call has not filled the destination, it left room. -/
  leavesRoom : d.destinationFull = false → ∀ last ∈ calls.getLast?, last.LeavesRoom
  /-- A call that did nothing has not filled the destination. -/
  stalled : d.stalled = true → d.destinationFull = false
  /-- The reader may have more. -/
  unended : Unended d.reader.calls
  /-- The end has not been reached. -/
  unfinished : d.finished = false

/-- The reader has reached the end of its input, where a frame ends. -/
structure Concluded (start : κ) (calls : List StepCall) (served : List UInt8)
    (d : DecompressingReader κ (Observed ρ)) : Prop where
  /-- The codec was fed what was received. -/
  feeding : Feeding start (receivedBy d.reader.calls) calls d.session.codec
  /-- All that was received has been used. -/
  source_eq : receivedBy d.reader.calls = takenBy calls
  /-- What was put out has been served, or is in the output. -/
  output_eq : givenBy calls = served ++ d.output.toList
  /-- The reader has told that there is no more. -/
  exhausted : Exhausted d.reader.calls
  /-- The codec has nothing more to give. -/
  quiescent : Quiescent calls
  /-- The input may end here. -/
  endOfInput : Codec.endOfInput d.session.codec = .ok ()
  /-- The end has been reached. -/
  finished : d.finished = true

/-! ## Single moves -/

/-- A push that succeeds hands what the codec put out to the output. -/
theorem Held.advance_ok {start : κ} {calls : List StepCall} {served : List UInt8}
    {d : DecompressingReader κ (Observed ρ)} {s : Step} {codec : κ} (h : Held start calls served d)
    (hstep : Codec.step d.session.codec d.source.pending d.session.destination.free .feed
      = (.ok s, codec)) :
    ∃ d', d.advance = (.ok (), d') ∧ d'.reader = d.reader ∧ d'.finished = d.finished
      ∧ d'.source = d.source.consume s.consumed ∧ d'.session.codec = codec
      ∧ d'.session.destination = d.session.destination ∧ d'.session.phase = .active
      ∧ d'.output.toList = s.produced.data.toList
      ∧ d'.destinationFull = (d.session.destination.append s.produced).isFull
      ∧ d'.stalled = (s.consumed == 0 && s.produced.isEmpty) := by
  obtain ⟨reader, source, ⟨codec₀, ⟨bytes, capacity⟩, phase⟩, output, full, stalled, finished⟩ := d
  obtain rfl : bytes = .empty := h.drained
  obtain rfl : phase = .active := h.active
  have happ : ByteArray.empty ++ s.produced = s.produced := ByteArray.empty_append
  refine ⟨⟨reader, source.consume s.consumed, ⟨codec, ⟨.empty, capacity⟩, .active⟩,
    .ofBytes s.produced, (DestinationBuffer.append ⟨.empty, capacity⟩ s.produced).isFull,
    s.consumed == 0 && s.produced.isEmpty, finished⟩, ?_, rfl, rfl, rfl,
    rfl, rfl, rfl, Slice.toList_ofBytes _, rfl, rfl⟩
  dsimp only at hstep ⊢
  have hpush := Session.push_ok hstep
  simp only [advance, hpush, Session.drain_active]
  simp only [DestinationBuffer.append, DestinationBuffer.rewind, happ]

theorem Held.advance_error {start : κ} {calls : List StepCall} {served : List UInt8}
    {d : DecompressingReader κ (Observed ρ)} {e : Error} {codec : κ}
    (h : Held start calls served d)
    (hstep : Codec.step d.session.codec d.source.pending d.session.destination.free .feed
      = (.error e, codec)) :
    d.advance = (.error (.failed e), { d with session := { d.session with codec } }) := by
  obtain ⟨reader, source, ⟨codec₀, destination, phase⟩, output, full, stalled, finished⟩ := d
  obtain rfl : phase = .active := h.active
  simp only [advance, Session.push_error hstep]

/-- **A push that succeeds is remembered by the flags.** -/
theorem Held.advance_serving {start : κ} {calls : List StepCall} {served : List UInt8}
    {d d' : DecompressingReader κ (Observed ρ)} {s : Step} {codec : κ}
    (h : Held start calls served d) (houtput : d.output.toList = [])
    (hunended : Unended d.reader.calls) (hunfinished : d.finished = false)
    (hstep : Codec.step d.session.codec d.source.pending d.session.destination.free .feed
      = (.ok s, codec)) (hd : d.advance = (.ok (), d')) :
    Serving start (calls ++ [⟨d.source.pending, d.session.destination.free, .feed, .ok s⟩])
      served d' := by
  obtain ⟨d₁, hadv, hreader, hfinished, hsource, hcodec, hdest, hphase, hout, hfull, hstalled⟩ :=
    h.advance_ok hstep
  rw [hadv] at hd
  cases hd
  have hfits := DestinationBuffer.fits_of_empty h.drained
  have hroom : 0 < d.session.destination.free :=
    DestinationBuffer.free_of_empty h.drained ▸ h.room
  have hle := Codec.produced_le hstep
  have hpre : takenBy calls ++ d.source.pending.toList <+: receivedBy d.reader.calls :=
    h.source_eq ▸ List.prefix_refl _
  constructor
  · refine ⟨?_, ?_, ?_, ?_, hdest ▸ h.drained, hdest ▸ h.room, hphase⟩
    · rw [hreader, hcodec]
      exact h.feeding.snoc hroom hpre hstep
    · rw [hreader, h.source_eq, hsource, SourceBuffer.toList_pending_consume, takenBy_snoc_ok,
        List.append_assoc, List.take_append_drop]
    · rw [givenBy_snoc_ok, h.output_eq, houtput, hout, List.append_nil]
    · rw [hsource]
      exact h.fits.consume (Codec.consumed_le hstep)
  · refine forall_last_snoc ?_
    rw [hsource, SourceBuffer.toList_pending_consume]
    exact (List.take_append_drop _ _).symm
  · intro hnot
    rw [hfull] at hnot
    exact forall_last_snoc ((DestinationBuffer.isFull_append hfits hle).mp hnot)
  · -- a stalled call put nothing out, so it cannot have filled the destination
    intro hst
    rw [hstalled, Bool.and_eq_true] at hst
    rw [hfull, DestinationBuffer.isFull_append hfits hle]
    have : s.produced.size = 0 := by simpa [ByteArray.isEmpty] using hst.2
    omega
  · rw [hreader]
    exact hunended
  · rw [hfinished]
    exact hunfinished

/-- Where input is needed, the codec has nothing more to give. -/
theorem Serving.leavesRoom_of_needsInput {start : κ} {calls : List StepCall}
    {served : List UInt8} {d : DecompressingReader κ (Observed ρ)}
    (h : Serving start calls served d) (hneeds : d.needsInput = true) :
    ∀ last ∈ calls.getLast?, last.LeavesRoom := by
  refine h.leavesRoom ?_
  simp only [needsInput, Bool.or_eq_true, Bool.and_eq_true, Bool.not_eq_true'] at hneeds
  rcases hneeds with ⟨_, hfull⟩ | hstalled
  · exact hfull
  · exact h.stalled hstalled

/-! ## Filling and reading -/

/-- A refill puts what was read behind what is pending. -/
theorem Held.refilled {start : κ} {calls : List StepCall} {served : List UInt8}
    {d : DecompressingReader κ (Observed ρ)} (h : Held start calls served d)
    {source : SourceBuffer} {reader : Observed ρ} {more : List EndCall}
    {result : Except (Halt Error) Refill} (hcalls : reader.calls = d.reader.calls ++ more)
    (hmore : SourceBuffer.Refilled d.source source more result) :
    Held start calls served { d with source, reader } where
  feeding := by
    show Feeding start (receivedBy reader.calls) _ _
    rw [hcalls, receivedBy_append]
    exact h.feeding.mono (List.prefix_append _ _)
  source_eq := by
    show receivedBy reader.calls = _
    rw [hcalls, receivedBy_append, h.source_eq, hmore.pending, List.append_assoc]
  output_eq := h.output_eq
  fits := hmore.fits
  drained := h.drained
  room := h.room
  active := h.active

section Turns

variable [Reader ρ] {d d' : DecompressingReader κ (Observed ρ)} {turns : Nat}
  {source' : SourceBuffer} {reader' : Observed ρ}

theorem fill_of_not_needsInput (h : d.needsInput = false) : d.fill turns = d.advance := by
  simp only [fill, h, Bool.false_eq_true, if_false]

theorem fill_of_read {n : Nat} (h : d.needsInput = true)
    (hrefill : d.source.refill turns d.reader = (.ok (.read n), source', reader')) :
    d.fill turns = advance { d with reader := reader', source := source' } := by
  obtain ⟨reader, source, session, output, full, stalled, finished⟩ := d
  dsimp only at hrefill
  simp only [fill, h, if_true, hrefill]

theorem fill_of_finished (h : d.needsInput = true)
    (hrefill : d.source.refill turns d.reader = (.ok .finished, source', reader')) :
    d.fill turns = conclude { d with reader := reader', source := source' } := by
  obtain ⟨reader, source, session, output, full, stalled, finished⟩ := d
  dsimp only at hrefill
  simp only [fill, h, if_true, hrefill]

theorem fill_of_failure {x : Halt Error} (h : d.needsInput = true)
    (hrefill : d.source.refill turns d.reader = (.error x, source', reader')) :
    d.fill turns = (.error x, { d with reader := reader', source := source' }) := by
  obtain ⟨reader, source, session, output, full, stalled, finished⟩ := d
  dsimp only at hrefill
  simp only [fill, h, if_true, hrefill]

theorem prepare_of_ready (h : (!d.output.isEmpty || d.finished) = true) :
    d.prepare (turns + 1) = (.ok (), d) := by
  simp only [prepare, h, if_true]

theorem prepare_of_fill (h : (!d.output.isEmpty || d.finished) = false)
    (hfill : d.fill turns = (.ok (), d')) : d.prepare (turns + 1) = d'.prepare turns := by
  simp only [prepare, h, Bool.false_eq_true, if_false, hfill]

theorem prepare_of_failure {x : Halt Error} (h : (!d.output.isEmpty || d.finished) = false)
    (hfill : d.fill turns = (.error x, d')) : d.prepare (turns + 1) = (.error x, d') := by
  simp only [prepare, h, Bool.false_eq_true, if_false, hfill]

end Turns

section Fill

variable {start : κ} {calls : List StepCall} {served : List UInt8}
  {d d' : DecompressingReader κ (Observed ρ)} {source' : SourceBuffer} {reader' : Observed ρ}
  {more : List EndCall}

/-- Where the source ends, the codec has used all of it and has nothing more to give. -/
theorem Serving.ended (h : Serving start calls served d) (hneeds : d.needsInput = true)
    (hcalls : reader'.calls = d.reader.calls ++ more)
    (hmore : SourceBuffer.Refilled d.source source' more (.ok .finished))
    (hempty : source'.pending.isEmpty = true) :
    receivedBy reader'.calls = takenBy calls ∧ Exhausted reader'.calls ∧ Quiescent calls := by
  obtain ⟨hnil, hexhausted⟩ := hmore.finished rfl
  have hpending := hmore.pending
  rw [source'.isEmpty_pending_iff.mp hempty, hnil, List.append_nil] at hpending
  refine ⟨?_, ?_, fun last hlast => ?_⟩
  · rw [hcalls, receivedBy_append, hnil, List.append_nil, h.source_eq, ← hpending, List.append_nil]
  · rw [hcalls]
    exact h.unended.append_exhausted hexhausted
  · have hleft := h.left last hlast
    rw [← hpending, List.append_nil] at hleft
    exact ⟨h.leavesRoom_of_needsInput hneeds last hlast, hleft.symm⟩

/-- A reader that succeeds in concluding has reached its end. -/
theorem Serving.concluded (h : Serving start calls served d) (hneeds : d.needsInput = true)
    (hcalls : reader'.calls = d.reader.calls ++ more)
    (hmore : SourceBuffer.Refilled d.source source' more (.ok .finished))
    (hconclude : conclude { d with reader := reader', source := source' } = (.ok (), d')) :
    Concluded start calls served d' := by
  unfold conclude at hconclude
  split at hconclude
  · next hempty =>
    obtain ⟨hreceived, hexhausted, hquiescent⟩ := h.ended hneeds hcalls hmore hempty
    have hfeeding := (h.toHeld.refilled hcalls hmore).feeding
    split at hconclude <;> cases hconclude
    next hend =>
    refine ⟨hfeeding, hreceived, h.output_eq, hexhausted, hquiescent, ?_, rfl⟩
    unfold Session.endOfInput at hend
    rw [h.active] at hend
    exact hend
  · cases hconclude

/-- A push that has not failed keeps the reader going. -/
theorem Held.serving_of_advance (h : Held start calls served d) (houtput : d.output.toList = [])
    (hunended : Unended d.reader.calls) (hunfinished : d.finished = false)
    (hadvance : d.advance = (.ok (), d')) : ∃ calls', Serving start calls' served d' := by
  obtain ⟨result, codec, hstep⟩ : ∃ result codec, Codec.step d.session.codec d.source.pending
      d.session.destination.free .feed = (result, codec) := ⟨_, _, rfl⟩
  cases result with
  | error e => rw [h.advance_error hstep] at hadvance; cases hadvance
  | ok s => exact ⟨_, h.advance_serving houtput hunended hunfinished hstep hadvance⟩

/-- **A fill that succeeds** has made the next piece of output, or reached the end. -/
theorem fill_ok [Reader ρ] {turns : Nat} (h : Serving start calls served d)
    (houtput : d.output.toList = []) (hfill : d.fill turns = (.ok (), d')) :
    ∃ calls', Serving start calls' served d' ∨ Concluded start calls' served d' := by
  cases hneeds : d.needsInput with
  | false =>
      rw [fill_of_not_needsInput hneeds] at hfill
      exact (h.toHeld.serving_of_advance houtput h.unended h.unfinished hfill).imp
        fun _ => Or.inl
  | true =>
      obtain ⟨more, hcalls, hmore⟩ := SourceBuffer.refill_refilled turns d.reader h.fits
      obtain ⟨result, source', reader', hrefill⟩ : ∃ result source' reader',
          d.source.refill turns d.reader = (result, source', reader') := ⟨_, _, _, rfl⟩
      rw [hrefill] at hcalls hmore
      have hcalls : reader'.calls = d.reader.calls ++ more := hcalls
      cases result with
      | error x => rw [fill_of_failure hneeds hrefill] at hfill; cases hfill
      | ok refill =>
          cases refill with
          | finished =>
              rw [fill_of_finished hneeds hrefill] at hfill
              exact ⟨calls, Or.inr (h.concluded hneeds hcalls hmore hfill)⟩
          | read n =>
              have hunended : Unended reader'.calls := by
                rw [hcalls]
                exact h.unended.append (hmore.read n rfl).2
              rw [fill_of_read hneeds hrefill] at hfill
              exact ((h.toHeld.refilled hcalls hmore).serving_of_advance houtput hunended
                h.unfinished hfill).imp fun _ => Or.inl

end Fill

/-- What is known of a reader that has not failed. -/
def Working (start : κ) (served : List UInt8) (d : DecompressingReader κ (Observed ρ)) : Prop :=
  ∃ calls, Serving start calls served d ∨ Concluded start calls served d

/-- A reader that has reached its end is at the end of its input. -/
theorem Working.concluded {start : κ} {served : List UInt8}
    {d : DecompressingReader κ (Observed ρ)} (h : Working start served d)
    (hfinished : d.finished = true) : ∃ calls, Concluded start calls served d := by
  obtain ⟨calls, h | h⟩ := h
  · rw [h.unfinished] at hfinished
    cases hfinished
  · exact ⟨calls, h⟩

/-- Preparing output keeps what is known, and makes some unless the end has been reached. -/
theorem prepare_ok [Reader ρ] {start : κ} {served : List UInt8} : ∀ {turns : Nat}
    {d d' : DecompressingReader κ (Observed ρ)}, Working start served d →
    d.prepare turns = (.ok (), d') →
    Working start served d' ∧ (d'.output.toList ≠ [] ∨ d'.finished = true) := by
  intro turns
  induction turns with
  | zero =>
      intro d d' _ hd
      simp [prepare] at hd
  | succ turns ih =>
      intro d d' h hd
      cases hready : !d.output.isEmpty || d.finished with
      | true =>
          rw [prepare_of_ready hready] at hd
          cases hd
          rw [Bool.or_eq_true, Bool.not_eq_true'] at hready
          exact ⟨h, hready.imp_left toList_ne_nil_of_isEmpty⟩
      | false =>
          obtain ⟨result, d₁, hfill⟩ : ∃ result d₁, d.fill turns = (result, d₁) := ⟨_, _, rfl⟩
          cases result with
          | error x => rw [prepare_of_failure hready hfill] at hd; cases hd
          | ok =>
              rw [prepare_of_fill hready hfill] at hd
              rw [Bool.or_eq_false_iff, Bool.not_eq_false'] at hready
              -- an unfinished reader is not at its end
              obtain ⟨calls, h | h⟩ := h
              · exact ih (fill_ok h (toList_of_isEmpty hready.1) hfill) hd
              · rw [h.finished] at hready
                cases hready.2

/-- Output that is given out has been served. -/
theorem Serving.serve {start : κ} {calls : List StepCall} {served : List UInt8}
    {d : DecompressingReader κ (Observed ρ)} (h : Serving start calls served d) (room : Nat) :
    Serving start calls (served ++ d.output.toList.take room)
      { d with output := d.output.drop room } := by
  refine ⟨{ h.toHeld with output_eq := ?_ }, h.left, h.leavesRoom, h.stalled, h.unended,
    h.unfinished⟩
  rw [h.output_eq, List.append_assoc, Slice.toList_drop, List.take_append_drop]

/-- What is known stays known when output is given out. -/
theorem Working.serve {start : κ} {served : List UInt8} {d : DecompressingReader κ (Observed ρ)}
    (h : Working start served d) (room : Nat) :
    Working start (served ++ d.output.toList.take room)
      { d with output := d.output.drop room } := by
  obtain ⟨calls, h | h⟩ := h
  · exact ⟨calls, Or.inl (h.serve room)⟩
  · refine ⟨calls, Or.inr { h with output_eq := ?_ }⟩
    rw [h.output_eq, List.append_assoc, Slice.toList_drop, List.take_append_drop]

/-- **A read that succeeds** gives the next piece of the output. If it gives nothing although there
is room, all has been served and the end has been reached. -/
theorem read_ok [Reader ρ] {start : κ} {served : List UInt8} {turns room : Nat}
    {d d' : DecompressingReader κ (Observed ρ)} {b : ByteArray} (h : Working start served d)
    (hread : d.read turns room = (.ok b, d')) :
    Working start (served ++ b.data.toList) d'
      ∧ (room ≠ 0 → b.size = 0 → ∃ calls, Concluded start calls served d'
          ∧ d'.output.toList = []) := by
  rw [read] at hread
  split at hread
  · next hroom =>
    cases hread
    exact ⟨by simpa using h, fun hne => absurd hroom hne⟩
  · split at hread
    · cases hread
    · next d₁ hprepare =>
      obtain ⟨h₁, hready⟩ := prepare_ok h hprepare
      cases hread
      have hserve := h₁.serve room
      rw [← Slice.toList_take] at hserve
      refine ⟨hserve, fun hroom hsize => ?_⟩
      have hnil : d₁.output.toList = [] := toList_of_take hroom hsize
      have hfinished : d₁.finished = true := hready.resolve_left (not_not_intro hnil)
      obtain ⟨calls, hconcluded⟩ := h₁.concluded hfinished
      refine ⟨calls, { hconcluded with output_eq := ?_ }, ?_⟩
      · have := hconcluded.output_eq
        rw [hnil] at this
        rw [this, Slice.toList_drop, hnil, List.drop_nil]
      · rw [Slice.toList_drop, hnil, List.drop_nil]

/-! ## Histories -/

/-- Some reads, none of which failed, lead from `first` to a state and gave `served`. -/
inductive Served [Reader ρ] (first : DecompressingReader κ ρ) :
    List UInt8 → DecompressingReader κ ρ → Prop where
  | nil : Served first [] first
  | read {served : List UInt8} {d d' : DecompressingReader κ ρ} {turns room : Nat}
      {b : ByteArray} : Served first served d → d.read turns room = (.ok b, d') →
      Served first (served ++ b.data.toList) d'

/-- What is known of a new reader stays known while no read fails. -/
theorem Served.working [Reader ρ] {start : κ} {served : List UInt8}
    {first d : DecompressingReader κ (Observed ρ)} (h : Served first served d)
    (hfirst : Working start [] first) : Working start served d := by
  induction h with
  | nil => exact hfirst
  | read _ hread ih => exact (read_ok ih hread).1

/-- A new reader with room in its destination goes on. -/
theorem serving_new (codec : κ) (reader : ρ) (sourceLength : Nat) {destinationLength : Nat}
    (hroom : 0 < destinationLength) :
    Serving codec [] [] (⟨.new reader, ⟨.empty, 0, sourceLength⟩,
      ⟨codec, ⟨.empty, destinationLength⟩, .active⟩, .empty, false, false, false⟩ :
      DecompressingReader κ (Observed ρ)) := by
  refine ⟨⟨.nil, rfl, rfl, ⟨Nat.le_refl 0, Nat.zero_le _⟩, rfl, hroom, rfl⟩, ?_, ?_, ?_, ?_,
    rfl⟩ <;> simp [Observed.new, Unended]

/-- A new reader with room in its destination has served nothing. -/
theorem working_new (codec : κ) (reader : ρ) (sourceLength : Nat) {destinationLength : Nat}
    (hroom : 0 < destinationLength) :
    Working codec [] (⟨.new reader, ⟨.empty, 0, sourceLength⟩,
      ⟨codec, ⟨.empty, destinationLength⟩, .active⟩, .empty, false, false, false⟩ :
      DecompressingReader κ (Observed ρ)) :=
  ⟨[], Or.inl (serving_new codec reader sourceLength hroom)⟩

end DecompressingReader

end Zstandard
