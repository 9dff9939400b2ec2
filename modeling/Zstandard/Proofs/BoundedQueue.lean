import Zstandard.Proofs.Failures

/-!
# A source buffer is a bounded queue

What the reader gives goes in at the back of a source buffer, what is consumed comes out at its
front, in the same order, and no more is held than there is room for. A refill of a buffer that is
all pending is refused before the reader is called; any other refill offers the reader all the room
there is, so an empty answer is the end of the data. The headline is
`source_buffers_are_bounded_queues`.
-/

namespace Zstandard

/-- A read into `room` is answered, with bytes or a failure, after some interruptions. -/
inductive Answers {ρ : Type} [Reader ρ] (room : Nat) : ρ → Prop where
  | now {r r' : ρ} {result : Except IoError ByteArray} :
      Reader.read r room = (result, r') → (∀ e, result = .error e → e.kind ≠ .interrupted) →
      Answers room r
  | interrupted {r r' : ρ} {e : IoError} :
      Reader.read r room = (.error e, r') → e.kind = .interrupted → Answers room r' →
      Answers room r

/-- The same reader answers when its calls are seen. -/
theorem Answers.observed {ρ : Type} [Reader ρ] {room : Nat} {r : ρ} (h : Answers room r) :
    ∀ calls : List EndCall, Answers room (⟨r, calls⟩ : Observed ρ) := by
  induction h with
  | now hread htold => exact fun calls => .now (Observed.read_of hread) htold
  | interrupted hread he _ ih => exact fun calls => .interrupted (Observed.read_of hread) he (ih _)

/-- Reads that have ended the data end with an empty answer. -/
theorem Exhausted.last_read {calls : List EndCall} {room : Nat} (h : Exhausted calls)
    (hasks : ∀ c ∈ calls, ∃ told, c = .read room told) :
    ∃ before nothing, calls = before ++ [.read room (.ok nothing)] ∧ nothing.size = 0 := by
  obtain ⟨before, last, after, rfl, hlast, -, hafter⟩ := h
  obtain rfl : after = [] := by
    refine List.eq_nil_iff_forall_not_mem.mpr fun c hc => ?_
    obtain ⟨told, rfl⟩ := hasks c (by simp [hc])
    cases hafter _ hc
  obtain ⟨told, rfl⟩ := hasks last (by simp)
  cases told with
  | error e => cases hlast
  | ok nothing =>
      refine ⟨before, nothing, rfl, ?_⟩
      simp only [EndCall.endsData, Bool.and_eq_true, beq_iff_eq] at hlast
      exact hlast.2

/-- The failure of a read is its own. -/
theorem EndCall.error?_read {room : Nat} {told : Except IoError ByteArray} {e : Error}
    (h : (EndCall.read room told).error? = some e) : ∃ e', e = .readIo e' := by
  cases told with
  | ok chunk => cases h
  | error e' =>
      unfold EndCall.error? at h
      by_cases he : e'.kind = .interrupted
      · simp only [if_pos he] at h
        cases h
      · simp only [if_neg he] at h
        exact ⟨e', (Option.some.inj h).symm⟩

namespace SourceBuffer

variable {ρ : Type} [Reader ρ]

/-- Refills and consumptions, one after another, have led from `first` and `reader` to a buffer and
a reader; `taken` is what was consumed. -/
inductive Queued (first : SourceBuffer) (reader : ρ) :
    (taken : List UInt8) → SourceBuffer → Observed ρ → Prop where
  | new : Queued first reader [] first (.new reader)
  | consume {taken : List UInt8} {b : SourceBuffer} {o : Observed ρ} {n : Nat} :
      Queued first reader taken b o → n ≤ b.pending.size →
      Queued first reader (taken ++ b.pending.toList.take n) (b.consume n) o
  | refill {taken : List UInt8} {b b' : SourceBuffer} {o o' : Observed ρ}
      {result : Except (Halt Error) Refill} (turns : Nat) :
      Queued first reader taken b o → b.refill turns o = (result, b', o') →
      Queued first reader taken b' o'

/-- Whatever was refilled and consumed, the buffer is a queue of at most `capacity` bytes. -/
structure BoundedQueue (first : SourceBuffer) (capacity : Nat) (reader : ρ) : Prop where
  /-- The offsets are in order and within the capacity. -/
  fits : ∀ {taken b o}, Queued first reader taken b o →
    b.consumed ≤ b.bytes.size ∧ b.bytes.size ≤ capacity
  /-- What was consumed and what is pending is what the reader gave. -/
  bytes : ∀ {taken b o}, Queued first reader taken b o →
    taken ++ b.pending.toList = receivedBy o.calls
  /-- A refill is refused for want of room just if all the room is taken by pending bytes; then the
  reader is not called. -/
  full : ∀ {taken b o turns result b' o'}, Queued first reader taken b o →
    b.refill turns o = (result, b', o') →
    (result = .error (.failed .notEnoughSourceBuffer) ↔ b.pending.size = capacity)
      ∧ (b.pending.size = capacity → o' = o)
  /-- Otherwise the reader is called, and offered the rest of the room each time, which is not
  nothing. -/
  offers : ∀ {taken b o turns result b' o'}, Queued first reader taken b o →
    b.refill turns o = (result, b', o') → b.pending.size ≠ capacity →
    0 < capacity - b.pending.size ∧ ∃ more, o'.calls = o.calls ++ more
      ∧ (result ≠ .error .outOfTurns → more ≠ [])
      ∧ ∀ c ∈ more, ∃ told, c = .read (capacity - b.pending.size) told
  /-- There are no more bytes only if the last call was answered with none. -/
  finished : ∀ {taken b o turns b' o'}, Queued first reader taken b o →
    b.refill turns o = (.ok .finished, b', o') →
    ∃ before nothing, o'.calls
        = o.calls ++ (before ++ [.read (capacity - b.pending.size) (.ok nothing)])
      ∧ nothing.size = 0 ∧ 0 < capacity - b.pending.size
  /-- A refill that reads nothing leaves what is pending as it was. -/
  unchanged : ∀ {taken b o turns result b' o'}, Queued first reader taken b o →
    b.refill turns o = (result, b', o') → (∀ n, result ≠ .ok (.read n)) →
    b'.pending.toList = b.pending.toList
  /-- A refill comes to an end, if the reader answers where it is called. -/
  settles : ∀ {taken b o}, Queued first reader taken b o →
    (b.pending.size ≠ capacity → Answers (capacity - b.pending.size) o.ends) →
    ∃ result b' o', Settles (fun turns => b.refill turns o) (result, b', o')
      ∧ result ≠ .error .outOfTurns

/-! ## What a run keeps -/

/-- The buffer is within its capacity, and what was consumed and what is pending is what the reader
gave. -/
structure InOrder (capacity : Nat) (taken : List UInt8) (b : SourceBuffer) (o : Observed ρ) :
    Prop where
  fits : b.Fits
  capacity : b.capacity = capacity
  bytes : taken ++ b.pending.toList = receivedBy o.calls

variable {capacity : Nat} {taken : List UInt8} {b b' : SourceBuffer} {o o' : Observed ρ}
  {turns : Nat} {result : Except (Halt Error) Refill}

omit [Reader ρ] in
theorem InOrder.new (reader : ρ) :
    InOrder capacity [] ⟨.empty, 0, capacity⟩ (Observed.new reader) :=
  ⟨⟨Nat.le_refl _, Nat.zero_le _⟩, rfl, rfl⟩

omit [Reader ρ] in
/-- What is consumed is taken from the front of what is pending. -/
theorem InOrder.consume (h : InOrder capacity taken b o) {n : Nat} (hn : n ≤ b.pending.size) :
    InOrder capacity (taken ++ b.pending.toList.take n) (b.consume n) o where
  fits := h.fits.consume hn
  capacity := h.capacity
  bytes := by
    rw [toList_pending_consume, List.append_assoc, List.take_append_drop]
    exact h.bytes

/-- What a refill reads is put behind what is pending. -/
theorem InOrder.refill (h : InOrder capacity taken b o)
    (hrefill : b.refill turns o = (result, b', o')) : InOrder capacity taken b' o' := by
  obtain ⟨more, hcalls, hmore⟩ := refill_refilled turns o h.fits
  rw [hrefill] at hcalls hmore
  refine ⟨hmore.fits, hmore.capacity.trans h.capacity, ?_⟩
  rw [hmore.pending, ← List.append_assoc, h.bytes, ← receivedBy_append, ← hcalls]

theorem Queued.inOrder {reader : ρ} (h : Queued ⟨.empty, 0, capacity⟩ reader taken b o) :
    InOrder capacity taken b o := by
  induction h with
  | new => exact .new reader
  | consume _ hn ih => exact ih.consume hn
  | refill turns _ hrefill ih => exact ih.refill hrefill

/-! ## What a refill asks for -/

omit [Reader ρ] in
/-- A fill reads into the room behind the bytes, and makes no other call. -/
theorem FillCalls.asks {more : List EndCall} (h : FillCalls b turns more b' result) :
    ∀ c ∈ more, ∃ told, c = .read (b.capacity - b.bytes.size) told := by
  induction h with
  | cut => exact List.forall_mem_nil _
  | nothing | chunk | failed => exact List.forall_mem_singleton.mpr ⟨_, rfl⟩
  | interrupted _ _ ih => exact List.forall_mem_cons.mpr ⟨⟨_, rfl⟩, ih⟩

/-- A buffer that is all pending is not refilled, and the reader is not called. -/
theorem refill_of_all_pending (h : b.pending.size = b.capacity) (turns : Nat) (o : Observed ρ) :
    b.refill turns o = (.error (.failed .notEnoughSourceBuffer), b.compact, o) :=
  refill_of_full (by rw [size_compact, capacity_compact, h]) turns o

/-- A buffer that is not all pending has room. -/
theorem Fits.room_pos (hb : b.Fits) (hroom : b.pending.size ≠ b.capacity) :
    0 < b.capacity - b.pending.size := by
  have := hb.size_le
  rw [size_pending] at hroom ⊢
  omega

/-- What a refill of a buffer with room has come to, and the room that was offered. -/
theorem refill_asks (hb : b.Fits) (hroom : b.pending.size ≠ b.capacity)
    (hrefill : b.refill turns o = (result, b', o')) : ∃ more, o'.calls = o.calls ++ more
      ∧ Refilled b b' more result ∧ Explains EndCall.error? more result
      ∧ ∀ c ∈ more, ∃ told, c = .read (b.capacity - b.pending.size) told := by
  have hnot : b.compact.bytes.size ≠ b.compact.capacity := by
    rwa [size_compact, capacity_compact]
  obtain ⟨more, hcalls, hmore⟩ := fill_fillCalls turns b.compact o
  rw [← refill_of_not_full hnot, hrefill] at hcalls hmore
  have hasks := hmore.asks
  rw [size_compact, capacity_compact] at hasks
  exact ⟨more, hcalls, (hmore.refilled hb.compact hnot).of_compact, hmore.explains, hasks⟩

/-- Whatever a refill has come to with turns enough, a call has told it. -/
theorem Refilled.ne_nil {more : List EndCall} (h : Refilled b b' more result)
    (hexplains : Explains EndCall.error? more result) (hresult : result ≠ .error .outOfTurns) :
    more ≠ [] := by
  rintro rfl
  match result with
  | .ok (.read n) => exact (h.read n rfl).1 rfl
  | .ok .finished =>
      obtain ⟨before, last, after, hnil, -⟩ := (h.finished rfl).2
      cases List.append_eq_nil_iff.mp hnil.symm |>.2
  | .error .outOfTurns => exact hresult rfl
  | .error (.failed e) =>
      obtain ⟨c, hc, -⟩ := hexplains.exists_mem
      cases hc

/-! ## Refills come to an end -/

/-- A fill from a reader that answers comes to an end. -/
theorem fill_of_answers {r : ρ} (h : Answers (b.capacity - b.bytes.size) r) :
    ∃ result b' r', Settles (fun turns => b.fill turns r) (result, b', r')
      ∧ result ≠ .error .outOfTurns := by
  -- on the interruptions before the answer, each of which takes a turn
  induction h with
  | @now r r' told hread htold =>
      have hone {result b'} (hfill : ∀ turns, b.fill (turns + 1) r = (result, b', r')) :
          Settles (fun turns => b.fill turns r) (result, b', r') :=
        Settles.of_succ ⟨0, fun turns _ => hfill turns⟩
      cases told with
      | error e => exact ⟨_, _, _, hone (fill_of_failure hread (htold e rfl)), by simp⟩
      | ok chunk =>
          by_cases hchunk : chunk.size = 0
          · exact ⟨_, _, _, hone (fill_of_nothing hread hchunk), by simp⟩
          · exact ⟨_, _, _, hone (fill_of_chunk hread hchunk), by simp⟩
  | interrupted hread he _ ih =>
      obtain ⟨result, b', r', hsettles, hresult⟩ := ih
      refine ⟨result, b', r', Settles.of_succ (hsettles.imp fun turns hfill => ?_), hresult⟩
      rw [fill_of_interrupted hread he, hfill]

/-- A refill comes to an end, if the reader answers where it is called. -/
theorem refill_of_answers (o : Observed ρ)
    (h : b.pending.size ≠ b.capacity → Answers (b.capacity - b.pending.size) o.ends) :
    ∃ result b' o', Settles (fun turns => b.refill turns o) (result, b', o')
      ∧ result ≠ .error .outOfTurns := by
  by_cases hfull : b.pending.size = b.capacity
  · exact ⟨_, _, _, ⟨0, fun turns _ => refill_of_all_pending hfull turns o⟩, by simp⟩
  · have hnot : b.compact.bytes.size ≠ b.compact.capacity := by
      rwa [size_compact, capacity_compact]
    have hanswers := (h hfull).observed o.calls
    rw [← size_compact, ← capacity_compact b] at hanswers
    obtain ⟨result, b', o', hsettles, hresult⟩ := fill_of_answers hanswers
    refine ⟨result, b', o', hsettles.imp fun turns hfill => ?_, hresult⟩
    rw [refill_of_not_full hnot, hfill]

/-! ## The queue -/

/-- A new buffer is a bounded queue, whatever reader it is refilled from. -/
theorem boundedQueue_new (capacity : Nat) (reader : ρ) :
    BoundedQueue ⟨.empty, 0, capacity⟩ capacity reader where
  fits h := by
    have hb := h.inOrder
    exact ⟨hb.fits.consumed_le, hb.capacity ▸ hb.fits.size_le⟩
  bytes h := h.inOrder.bytes
  full {taken b o turns result b' o'} h hrefill := by
    have hb := h.inOrder
    obtain rfl := hb.capacity
    by_cases hfull : b.pending.size = b.capacity
    · rw [refill_of_all_pending hfull] at hrefill
      cases hrefill
      exact ⟨iff_of_true rfl hfull, fun _ => rfl⟩
    · refine ⟨iff_of_false (fun hrefused => ?_) hfull, fun h => absurd h hfull⟩
      obtain ⟨more, -, -, hexplains, hasks⟩ := refill_asks hb.fits hfull hrefill
      subst hrefused
      -- a failure would be that of a read
      obtain ⟨c, hc, he⟩ := hexplains.exists_mem
      obtain ⟨told, rfl⟩ := hasks c hc
      obtain ⟨e, he⟩ := EndCall.error?_read he
      cases he
  offers {taken b o turns result b' o'} h hrefill hroom := by
    have hb := h.inOrder
    obtain rfl := hb.capacity
    obtain ⟨more, hcalls, hmore, hexplains, hasks⟩ := refill_asks hb.fits hroom hrefill
    refine ⟨hb.fits.room_pos hroom, more, hcalls, fun hanswered => ?_, hasks⟩
    exact hmore.ne_nil hexplains hanswered
  finished {taken b o turns b' o'} h hrefill := by
    have hb := h.inOrder
    obtain rfl := hb.capacity
    by_cases hfull : b.pending.size = b.capacity
    · rw [refill_of_all_pending hfull] at hrefill
      cases hrefill
    · obtain ⟨more, hcalls, hmore, -, hasks⟩ := refill_asks hb.fits hfull hrefill
      obtain ⟨before, nothing, rfl, hnothing⟩ := (hmore.finished rfl).2.last_read hasks
      exact ⟨before, nothing, hcalls, hnothing, hb.fits.room_pos hfull⟩
  unchanged {taken b o turns result b' o'} h hrefill hread := by
    obtain ⟨more, -, hmore⟩ := refill_refilled turns o h.inOrder.fits
    rw [hrefill] at hmore
    have hnil : receivedBy more = [] := by
      match result with
      | .ok (.read n) => exact absurd rfl (hread n)
      | .ok .finished => exact (hmore.finished rfl).1
      | .error x => exact (hmore.failed x rfl).1
    rw [hmore.pending, hnil, List.append_nil]
  settles {taken b o} h hanswers := by
    obtain rfl := h.inOrder.capacity
    exact refill_of_answers o hanswers

end SourceBuffer

/-- **A source buffer is a bounded queue**, of whatever capacity and from whatever reader. -/
theorem source_buffers_are_bounded_queues {ρ : Type} [Reader ρ] {memory : Memory} {capacity : Nat}
    {first : SourceBuffer} (h : SourceBuffer.create memory capacity = .ok first) (reader : ρ) :
    first.BoundedQueue capacity reader := by
  obtain rfl := SourceBuffer.create_eq h
  exact SourceBuffer.boundedQueue_new capacity reader

/-! ### Four bytes at a time -/

namespace FourBytes

def first : SourceBuffer := ⟨.empty, 0, 4⟩

def reader : Slice := .ofBytes ⟨#[0x61, 0x62, 0x63, 0x64, 0x65, 0x66]⟩

/-- The first four bytes are read. -/
def filled : Except (Halt Error) Refill × SourceBuffer × Observed Slice :=
  first.refill 1 (.new reader)

/-- Two of them are consumed, and the next two are read. -/
def refilled : Except (Halt Error) Refill × SourceBuffer × Observed Slice :=
  (filled.2.1.consume 2).refill 1 filled.2.2

/-- There is no room for more. -/
def refused : Except (Halt Error) Refill × SourceBuffer × Observed Slice :=
  refilled.2.1.refill 1 refilled.2.2

end FourBytes

/-- What was consumed and what is pending is what was read, and a buffer that is all pending is not
refilled. -/
theorem source_buffers_are_bounded_queues_of_four_bytes :
    SourceBuffer.create .machine 4 = .ok FourBytes.first
      ∧ FourBytes.refilled.2.1.pending.toList = [0x63, 0x64, 0x65, 0x66]
      ∧ [0x61, 0x62] ++ FourBytes.refilled.2.1.pending.toList
        = receivedBy FourBytes.refilled.2.2.calls
      ∧ FourBytes.refused.1 = .error (.failed .notEnoughSourceBuffer)
      ∧ FourBytes.refused.2.2 = FourBytes.refilled.2.2 := by
  have hcreate : SourceBuffer.create .machine 4 = .ok FourBytes.first := rfl
  have hqueue := source_buffers_are_bounded_queues hcreate FourBytes.reader
  have hfilled : FourBytes.first.Queued FourBytes.reader [] FourBytes.filled.2.1
      FourBytes.filled.2.2 := .refill 1 .new rfl
  have htwo : 2 ≤ FourBytes.filled.2.1.pending.size := by decide
  have hrefilled : FourBytes.first.Queued FourBytes.reader [0x61, 0x62] FourBytes.refilled.2.1
      FourBytes.refilled.2.2 := .refill 1 (.consume hfilled htwo) rfl
  have hrefused : FourBytes.refilled.2.1.refill 1 FourBytes.refilled.2.2
      = (FourBytes.refused.1, FourBytes.refused.2.1, FourBytes.refused.2.2) := rfl
  obtain ⟨hresult, hreader⟩ := hqueue.full hrefilled hrefused
  exact ⟨hcreate, rfl, hqueue.bytes hrefilled, hresult.mpr rfl, hreader rfl⟩

end Zstandard
