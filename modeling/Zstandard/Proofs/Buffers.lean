import Zstandard.Buffer.Destination
import Zstandard.Buffer.Growable
import Zstandard.Buffer.Source
import Zstandard.Proofs.Ends

/-!
# What buffers keep

Each buffer holds a list of bytes within its capacity (`Fits`), and each operation does one thing to
that list:

* a refill adds behind the pending bytes just what the reader gave (`Refilled`), since a fill makes
  reads until one is not interrupted (`FillCalls`); it comes to an end if the reader answers
  (`refill_settles`);
* a flush leaves the destination empty once the writer has taken all of it, and as it was otherwise;
* a growable buffer keeps what it has, and has one unit of room again.

What buffers ask memory for is granted if it `Serves` them; and if one of them grows, up to the
size to which it `Grows`.
-/

namespace Zstandard

/-! ## Memory -/

/-- Buffers of the two lengths are granted. -/
structure Memory.Serves (memory : Memory) (sourceLength destinationLength : Nat) : Prop where
  source : memory.grants sourceLength = true
  destination : memory.grants destinationLength = true

/-- Whatever a destination that grows by a unit asks for is granted, up to `size` bytes of output:
there is always to be a unit of room behind the output. -/
def Memory.Grows (memory : Memory) (unit size : Nat) : Prop :=
  ∀ n ≤ size, memory.grants (n + unit) = true

namespace Memory.Grows

variable {memory : Memory} {unit size : Nat}

/-- The first request is for a unit. -/
theorem grants_unit (h : memory.Grows unit size) : memory.grants unit = true := by
  have hgrants := h 0 (Nat.zero_le size)
  rwa [Nat.zero_add] at hgrants

/-- The memory of a machine grants all that an address space holds. -/
theorem machine (h : size + unit < 2 ^ 62) : Memory.machine.Grows unit size :=
  fun _ hn => decide_eq_true (Nat.lt_of_le_of_lt (Nat.add_le_add_right hn unit) h)

end Memory.Grows

/-! ## Source buffers -/

namespace SourceBuffer

theorem create_eq {memory : Memory} {capacity : Nat} {b : SourceBuffer}
    (h : create memory capacity = .ok b) : b = ⟨.empty, 0, capacity⟩ := by
  unfold create at h
  split at h <;> cases h
  rfl

/-- The offsets are in order, and the bytes within the capacity. -/
structure Fits (b : SourceBuffer) : Prop where
  /-- No more has been handed on than was read. -/
  consumed_le : b.consumed ≤ b.bytes.size
  /-- No more was read than there is room for. -/
  size_le : b.bytes.size ≤ b.capacity

theorem toList_pending (b : SourceBuffer) :
    b.pending.toList = b.bytes.data.toList.drop b.consumed := by
  simp [pending]

theorem size_pending (b : SourceBuffer) : b.pending.size = b.bytes.size - b.consumed := by
  simp [pending, Slice.size_drop]

@[simp] theorem toList_pending_consume (b : SourceBuffer) (n : Nat) :
    (b.consume n).pending.toList = b.pending.toList.drop n := by
  simp [toList_pending, consume]

theorem size_pending_consume (b : SourceBuffer) (n : Nat) :
    (b.consume n).pending.size = b.pending.size - n := by
  rw [size_pending, size_pending]
  exact Nat.sub_add_eq _ _ _

theorem Fits.consume {b : SourceBuffer} (h : b.Fits) {n : Nat} (hn : n ≤ b.pending.size) :
    (b.consume n).Fits := by
  rw [size_pending] at hn
  have := h.consumed_le
  exact ⟨by show b.consumed + n ≤ b.bytes.size; omega, h.size_le⟩

theorem isEmpty_pending_iff (b : SourceBuffer) :
    b.pending.isEmpty = true ↔ b.pending.toList = [] := by
  rw [← List.length_eq_zero_iff, Slice.length_toList, Slice.isEmpty, beq_iff_eq]

theorem capacity_compact (b : SourceBuffer) : b.compact.capacity = b.capacity := by
  unfold compact
  split <;> rfl

/-- Compacting leaves just the pending bytes, at the front. -/
theorem toList_compact (b : SourceBuffer) : b.compact.bytes.data.toList = b.pending.toList := by
  rw [toList_pending]
  unfold compact
  split
  · next h => rw [h, List.drop_zero]
  · -- compacting copies the bytes behind the offset
    show (b.bytes.extract b.consumed b.bytes.size).data.toList = _
    have hlen : (b.bytes.data.toList.drop b.consumed).length ≤ b.bytes.size - b.consumed := by
      rw [List.length_drop]
      exact Nat.le_refl _
    rw [ByteArray.data_extract, Array.toList_extract, List.extract_eq_take_drop,
      List.take_of_length_le hlen]

theorem consumed_compact (b : SourceBuffer) : b.compact.consumed = 0 := by
  unfold compact
  split
  · next h => exact h
  · rfl

theorem toList_pending_compact (b : SourceBuffer) :
    b.compact.pending.toList = b.pending.toList := by
  rw [toList_pending, consumed_compact, List.drop_zero, toList_compact]

theorem size_compact (b : SourceBuffer) : b.compact.bytes.size = b.pending.size := by
  rw [← Slice.length_toList, ← toList_compact]
  rfl

@[simp] theorem compact_compact (b : SourceBuffer) : b.compact.compact = b.compact :=
  if_pos (consumed_compact b)

theorem Fits.compact {b : SourceBuffer} (h : b.Fits) : b.compact.Fits := by
  refine ⟨by rw [consumed_compact]; exact Nat.zero_le _, ?_⟩
  rw [size_compact, size_pending, capacity_compact]
  have := h.size_le
  omega

/-! Single reads, and what they make of a fill and a refill. -/

section Reads

variable {ρ : Type} [Reader ρ] {r r' : ρ} {b : SourceBuffer}

/-- A read that is interrupted takes one turn. -/
theorem fill_of_interrupted {e : IoError}
    (h : Reader.read r (b.capacity - b.bytes.size) = (.error e, r')) (he : e.kind = .interrupted)
    (turns : Nat) : b.fill (turns + 1) r = b.fill turns r' := by
  rw [fill, h]
  exact if_pos he

/-- A read that fails otherwise is the end of it. -/
theorem fill_of_failure {e : IoError}
    (h : Reader.read r (b.capacity - b.bytes.size) = (.error e, r')) (he : e.kind ≠ .interrupted)
    (turns : Nat) : b.fill (turns + 1) r = (.error (.failed (.readIo e)), b, r') := by
  rw [fill, h]
  exact if_neg he

/-- An empty answer is the end of the data. -/
theorem fill_of_nothing {chunk : ByteArray}
    (h : Reader.read r (b.capacity - b.bytes.size) = (.ok chunk, r')) (hchunk : chunk.size = 0)
    (turns : Nat) : b.fill (turns + 1) r = (.ok .finished, b, r') := by
  rw [fill, h]
  exact if_pos hchunk

/-- An answer is put behind the bytes. -/
theorem fill_of_chunk {chunk : ByteArray}
    (h : Reader.read r (b.capacity - b.bytes.size) = (.ok chunk, r')) (hchunk : chunk.size ≠ 0)
    (turns : Nat) : b.fill (turns + 1) r
      = (.ok (.read chunk.size), { b with bytes := b.bytes ++ chunk }, r') := by
  rw [fill, h]
  exact if_neg hchunk

theorem refill_of_full (h : b.compact.bytes.size = b.compact.capacity) (turns : Nat) (r : ρ) :
    b.refill turns r = (.error (.failed .notEnoughSourceBuffer), b.compact, r) := if_pos h

theorem refill_of_not_full (h : b.compact.bytes.size ≠ b.compact.capacity) (turns : Nat) (r : ρ) :
    b.refill turns r = b.compact.fill turns r := if_neg h

/-- Compacting first makes no difference to a refill. -/
@[simp] theorem refill_compact (b : SourceBuffer) (turns : Nat) (r : ρ) :
    b.compact.refill turns r = b.refill turns r := by
  unfold refill
  rw [compact_compact]

end Reads

/-- What a read came to ends a fill or has it read again, whatever reader it is from. -/
theorem fill_of_read (b : SourceBuffer) (result : Except IoError ByteArray) :
    (∃ told b', ∀ {ρ : Type} [Reader ρ] {r r' : ρ},
      Reader.read r (b.capacity - b.bytes.size) = (result, r') →
      ∀ turns, b.fill (turns + 1) r = (told, b', r'))
    ∨ ∀ {ρ : Type} [Reader ρ] {r r' : ρ},
      Reader.read r (b.capacity - b.bytes.size) = (result, r') →
      ∀ turns, b.fill (turns + 1) r = b.fill turns r' := by
  cases result with
  | error e =>
      by_cases he : e.kind = .interrupted
      · exact .inr fun h => fill_of_interrupted h he
      · exact .inl ⟨_, b, fun h => fill_of_failure h he⟩
  | ok chunk =>
      by_cases hchunk : chunk.size = 0
      · exact .inl ⟨_, b, fun h => fill_of_nothing h hchunk⟩
      · exact .inl ⟨_, _, fun h => fill_of_chunk h hchunk⟩

/-- The calls that a fill makes within some turns, what it leaves, and what comes of it. -/
inductive FillCalls (b : SourceBuffer) :
    (turns : Nat) → List EndCall → SourceBuffer → Except (Halt Error) Refill → Prop where
  | cut : FillCalls b 0 [] b (.error .outOfTurns)
  | nothing {turns : Nat} {chunk : ByteArray} (hchunk : chunk.size = 0) :
      FillCalls b (turns + 1) [.read (b.capacity - b.bytes.size) (.ok chunk)] b (.ok .finished)
  | chunk {turns : Nat} {chunk : ByteArray} (hle : chunk.size ≤ b.capacity - b.bytes.size)
      (hchunk : chunk.size ≠ 0) :
      FillCalls b (turns + 1) [.read (b.capacity - b.bytes.size) (.ok chunk)]
        { b with bytes := b.bytes ++ chunk } (.ok (.read chunk.size))
  | failed {turns : Nat} {e : IoError} (he : e.kind ≠ .interrupted) :
      FillCalls b (turns + 1) [.read (b.capacity - b.bytes.size) (.error e)] b
        (.error (.failed (.readIo e)))
  | interrupted {turns : Nat} {e : IoError} {more : List EndCall} {b' : SourceBuffer}
      {result : Except (Halt Error) Refill} (he : e.kind = .interrupted)
      (rest : FillCalls b turns more b' result) :
      FillCalls b (turns + 1) (.read (b.capacity - b.bytes.size) (.error e) :: more) b' result

/-- Whatever the reader is, a fill goes like this. -/
theorem fill_fillCalls {ε : Type} [Reader ε] (turns : Nat) (b : SourceBuffer) (o : Observed ε) :
    ∃ more, (b.fill turns o).2.2.calls = o.calls ++ more
      ∧ FillCalls b turns more (b.fill turns o).2.1 (b.fill turns o).1 := by
  induction turns generalizing o with
  | zero => exact ⟨[], (List.append_nil _).symm, .cut⟩
  | succ turns ih =>
      obtain ⟨result, ends, hr⟩ :
          ∃ result ends, Reader.read o.ends (b.capacity - b.bytes.size) = (result, ends) :=
        ⟨_, _, rfl⟩
      have hread := Observed.read_of hr
      match result with
      | .ok chunk =>
          by_cases hchunk : chunk.size = 0
          · rw [fill_of_nothing hread hchunk]
            exact ⟨_, rfl, .nothing hchunk⟩
          · rw [fill_of_chunk hread hchunk]
            exact ⟨_, rfl, .chunk (Reader.size_le hr) hchunk⟩
      | .error e =>
          by_cases he : e.kind = .interrupted
          · rw [fill_of_interrupted hread he]
            obtain ⟨more, hcalls, hmore⟩ := ih ⟨ends, _⟩
            exact ⟨_, by rw [hcalls, List.append_assoc]; rfl, .interrupted he hmore⟩
          · rw [fill_of_failure hread he]
            exact ⟨_, rfl, .failed he⟩

/-- What a refill from `b` to `b'` has come to, by some calls of the reader. -/
structure Refilled (b b' : SourceBuffer) (more : List EndCall)
    (result : Except (Halt Error) Refill) : Prop where
  /-- The calls are reads. -/
  reads : ∀ c ∈ more, c.isRead = true
  /-- The buffer keeps to its bounds. -/
  fits : b'.Fits
  /-- It keeps its capacity. -/
  capacity : b'.capacity = b.capacity
  /-- What the reader gave stands behind what was pending. -/
  pending : b'.pending.toList = b.pending.toList ++ receivedBy more
  /-- A read has given something. -/
  read : ∀ n, result = .ok (.read n) → receivedBy more ≠ [] ∧ Unended more
  /-- The reader has told that there are no more bytes. -/
  finished : result = .ok .finished → receivedBy more = [] ∧ Exhausted more
  /-- A failure has brought nothing. -/
  failed : ∀ h, result = .error h → receivedBy more = [] ∧ Unended more

section Refill

variable {ε : Type} [Reader ε]

/-- The reader has been interrupted once more. -/
theorem Refilled.interrupted {b b' : SourceBuffer} {more : List EndCall}
    {result : Except (Halt Error) Refill} (h : Refilled b b' more result) (room : Nat)
    (e : IoError) : Refilled b b' (.read room (.error e) :: more) result where
  reads := List.forall_mem_cons.mpr ⟨rfl, h.reads⟩
  fits := h.fits
  capacity := h.capacity
  pending := h.pending
  read n hr := ⟨(h.read n hr).1, List.forall_mem_cons.mpr ⟨rfl, (h.read n hr).2⟩⟩
  finished hr := by
    obtain ⟨hnil, before, last, after, rfl, hlast, hbefore, hafter⟩ := h.finished hr
    exact ⟨hnil, .read room (.error e) :: before, last, after, rfl, hlast,
      List.forall_mem_cons.mpr ⟨rfl, hbefore⟩, hafter⟩
  failed x hr := ⟨(h.failed x hr).1, List.forall_mem_cons.mpr ⟨rfl, (h.failed x hr).2⟩⟩

/-- A refill that failed before it read. -/
theorem Refilled.unread {b b' : SourceBuffer} (hfits : b'.Fits)
    (hcapacity : b'.capacity = b.capacity)
    (hpending : b'.pending.toList = b.pending.toList) (x : Halt Error) :
    Refilled b b' [] (.error x) where
  reads := by simp
  fits := hfits
  capacity := hcapacity
  pending := hpending.trans (List.append_nil _).symm
  read := by simp
  finished := by simp
  failed := fun _ _ => ⟨rfl, by simp [Unended]⟩

section Single

variable {b : SourceBuffer} {chunk : ByteArray} (room : Nat)

/-- The read had room, so an empty answer is the end of the data. -/
theorem Fits.refilled_nothing (h : b.Fits) (hroom : room ≠ 0) (hchunk : chunk.size = 0) :
    Refilled b b [.read room (.ok chunk)] (.ok .finished) := by
  have hnil : chunk.data.toList = [] := List.length_eq_zero_iff.mp hchunk
  refine ⟨by simp [EndCall.isRead], h, rfl, by simp [EndCall.received, hnil], by simp,
    fun _ => ⟨by simpa [EndCall.received] using hnil, [], _, [], rfl, ?_, ?_, ?_⟩, by simp⟩
  · simp [EndCall.endsData, hchunk, hroom]
  · simp [Unended]
  · simp

/-- What was read stands behind what was pending. -/
theorem Fits.refilled_chunk (h : b.Fits) (hle : chunk.size ≤ b.capacity - b.bytes.size)
    (hchunk : chunk.size ≠ 0) :
    Refilled b { b with bytes := b.bytes ++ chunk } [.read room (.ok chunk)]
      (.ok (.read chunk.size)) := by
  have hne : chunk.data.toList ≠ [] := fun hnil => hchunk (by
    show chunk.data.toList.length = 0
    rw [hnil, List.length_nil])
  have hsize : (b.bytes ++ chunk).size = b.bytes.size + chunk.size := ByteArray.size_append
  have hcons := h.consumed_le
  have hcap := h.size_le
  refine ⟨by simp [EndCall.isRead], ⟨?_, ?_⟩, rfl, ?_, fun n _ => ⟨?_, ?_⟩, by simp, by simp⟩
  · show b.consumed ≤ (b.bytes ++ chunk).size
    omega
  · show (b.bytes ++ chunk).size ≤ b.capacity
    omega
  · have hlen : b.consumed ≤ b.bytes.data.toList.length := hcons
    simp only [toList_pending, ByteArray.data_append, Array.toList_append,
      List.drop_append_of_le_length hlen, receivedBy_cons, receivedBy_nil,
      EndCall.received, List.append_nil]
  · simpa [EndCall.received] using hne
  · simp [Unended, EndCall.endsData, hchunk]

/-- A read that failed brought nothing. -/
theorem Fits.refilled_failure (h : b.Fits) (e : IoError) :
    Refilled b b [.read room (.error e)] (.error (.failed (.readIo e))) :=
  ⟨by simp [EndCall.isRead], h, rfl, by simp [EndCall.received], by simp, by simp,
    fun _ _ => ⟨rfl, by simp [Unended, EndCall.endsData]⟩⟩

end Single

theorem FillCalls.refilled {b b' : SourceBuffer} {turns : Nat} {more : List EndCall}
    {result : Except (Halt Error) Refill} (h : FillCalls b turns more b' result) (hb : b.Fits)
    (hfull : b.bytes.size ≠ b.capacity) : Refilled b b' more result := by
  induction h with
  | cut => exact .unread hb rfl rfl _
  | nothing hchunk =>
      have hroom : b.capacity - b.bytes.size ≠ 0 := by
        have := hb.size_le
        omega
      exact hb.refilled_nothing _ hroom hchunk
  | chunk hle hchunk => exact hb.refilled_chunk _ hle hchunk
  | failed => exact hb.refilled_failure _ _
  | interrupted _ _ ih => exact ih.interrupted _ _

omit [Reader ε] in
/-- Compacting first makes no difference to what a refill comes to. -/
theorem Refilled.of_compact {b b' : SourceBuffer} {more : List EndCall}
    {result : Except (Halt Error) Refill} (h : Refilled b.compact b' more result) :
    Refilled b b' more result where
  reads := h.reads
  fits := h.fits
  capacity := h.capacity.trans (capacity_compact b)
  pending := by rw [h.pending, toList_pending_compact]
  read := h.read
  finished := h.finished
  failed := h.failed

/-- **A refill adds what the reader gave behind what is pending.** -/
theorem refill_refilled (turns : Nat) {b : SourceBuffer} (o : Observed ε) (hb : b.Fits) :
    ∃ more, (b.refill turns o).2.2.calls = o.calls ++ more
      ∧ Refilled b (b.refill turns o).2.1 more (b.refill turns o).1 := by
  rw [refill]
  split
  · -- a buffer that is full when it is compacted is not read into
    exact ⟨[], (List.append_nil _).symm,
      .unread hb.compact (capacity_compact b) (toList_pending_compact b) _⟩
  · next hfull =>
    obtain ⟨more, hcalls, hmore⟩ := fill_fillCalls turns b.compact o
    exact ⟨more, hcalls, (hmore.refilled hb.compact hfull).of_compact⟩

/-- A read comes to an end, whatever number of interruptions precede the answer. -/
theorem fill_settles {still : List UInt8 → ε → Prop} {b : SourceBuffer} {s : List UInt8} {r : ε}
    (hr : Gives still (b.capacity - b.bytes.size) s r) : ∀ calls : List EndCall,
      ∃ result b' o' rest,
        Settles (fun turns => b.fill turns (⟨r, calls⟩ : Observed ε)) (.ok result, b', o')
          ∧ still rest o'.ends ∧ receivedBy o'.calls ++ rest = receivedBy calls ++ s
          ∧ (result = .finished → s = []) := by
  -- on the interruptions; each takes one turn and leaves the buffer as it is
  induction hr with
  | @piece r r' chunk rest hread hc hs hrest =>
      intro calls
      have heq := Observed.read_of (o := ⟨r, calls⟩) hread
      refine ⟨.read chunk.size, ⟨b.bytes ++ chunk, b.consumed, b.capacity⟩,
        ⟨r', calls ++ [.read (b.capacity - b.bytes.size) (.ok chunk)]⟩, rest,
        Settles.of_succ ?_, hrest, ?_, by simp⟩
      · simp only [fill, heq, if_neg hc]
        exact Settles.const
      · simp [EndCall.received, hs]
  | @nothing r r' chunk hread hc hs hrest =>
      intro calls
      have heq := Observed.read_of (o := ⟨r, calls⟩) hread
      have hnil : chunk.data.toList = [] := List.length_eq_zero_iff.mp hc
      refine ⟨.finished, b, ⟨r', calls ++ [.read (b.capacity - b.bytes.size) (.ok chunk)]⟩, s,
        Settles.of_succ ?_, hrest, ?_, fun _ => hs⟩
      · simp only [fill, heq, if_pos hc]
        exact Settles.const
      · simp [EndCall.received, hnil]
  | @interrupted r r' e hread he _ ih =>
      intro calls
      have heq := Observed.read_of (o := ⟨r, calls⟩) hread
      obtain ⟨result, b', o', rest, hset, hrest, hrec, hfin⟩ :=
        ih (calls ++ [.read (b.capacity - b.bytes.size) (.error e)])
      refine ⟨result, b', o', rest, Settles.of_succ ?_, hrest, ?_, hfin⟩
      · simp only [fill, heq, if_pos he]
        exact hset
      · simpa [EndCall.received] using hrec

/-- A refill of a buffer with room comes to an end if the reader answers, and does not fail. -/
theorem refill_settles {still : List UInt8 → ε → Prop} (hstill : Supplies still)
    {b : SourceBuffer} {o : Observed ε} {s : List UInt8} (hroom : b.pending.size < b.capacity)
    (ho : still s o.ends) :
    ∃ result b' o' rest, Settles (fun turns => b.refill turns o) (.ok result, b', o')
      ∧ still rest o'.ends ∧ receivedBy o'.calls ++ rest = receivedBy o.calls ++ s
      ∧ (result = .finished → s = []) := by
  -- pending bytes that leave room leave it once they are moved to the front
  have hlt : b.compact.bytes.size < b.compact.capacity := by
    rw [size_compact, capacity_compact]
    exact hroom
  have hpos : 0 < b.compact.capacity - b.compact.bytes.size := by omega
  have hrefill : ∀ turns, b.refill turns o = b.compact.fill turns o := by
    intro turns
    rw [refill, if_neg (Nat.ne_of_lt hlt)]
  simp only [hrefill]
  exact fill_settles (hstill.read ho hpos) o.calls

/-- A refill that comes to an end has moved bytes from the rest to the buffer, and lost none. -/
theorem refill_supplied {still : List UInt8 → ε → Prop} (hstill : Supplies still)
    {b : SourceBuffer} {o : Observed ε} {rest : List UInt8} (hb : b.Fits)
    (hroom : b.pending.size < b.capacity) (ho : still rest o.ends) :
    ∃ result b' o' rest' more, Settles (fun turns => b.refill turns o) (.ok result, b', o')
      ∧ still rest' o'.ends ∧ o'.calls = o.calls ++ more ∧ Refilled b b' more (.ok result)
      ∧ receivedBy more ++ rest' = rest ∧ (result = .finished → rest = [])
      ∧ b'.pending.size + rest'.length = b.pending.size + rest.length := by
  obtain ⟨result, b', o', rest', hrefill, hstill', hreceived, hfinished⟩ :=
    refill_settles hstill hroom ho
  obtain ⟨turns, hturns⟩ := hrefill.reached
  obtain ⟨more, hcalls, hmore⟩ := refill_refilled turns o hb
  rw [hturns] at hcalls hmore
  have hcalls : o'.calls = o.calls ++ more := hcalls
  rw [hcalls, receivedBy_append, List.append_assoc] at hreceived
  have hrest := List.append_cancel_left hreceived
  refine ⟨result, b', o', rest', more, hrefill, hstill', hcalls, hmore, hrest, hfinished, ?_⟩
  rw [← Slice.length_toList, hmore.pending, ← hrest, List.length_append, List.length_append,
    Slice.length_toList]
  omega

end Refill

end SourceBuffer

/-! ## Destination buffers -/

namespace DestinationBuffer

/-- The output is within the capacity. -/
def Fits (b : DestinationBuffer) : Prop := b.bytes.size ≤ b.capacity

theorem create_eq {memory : Memory} {capacity : Nat} {b : DestinationBuffer}
    (h : create memory capacity = .ok b) : b = ⟨.empty, capacity⟩ := by
  unfold create at h
  split at h <;> cases h
  rfl

@[simp] theorem toList_append (b : DestinationBuffer) (produced : ByteArray) :
    (b.append produced).bytes.data.toList = b.bytes.data.toList ++ produced.data.toList := by
  simp [append]

@[simp] theorem capacity_append (b : DestinationBuffer) (produced : ByteArray) :
    (b.append produced).capacity = b.capacity := rfl

@[simp] theorem toList_rewind (b : DestinationBuffer) : b.rewind.bytes.data.toList = [] := rfl

theorem size_append (b : DestinationBuffer) (produced : ByteArray) :
    (b.append produced).bytes.size = b.bytes.size + produced.size := ByteArray.size_append

theorem Fits.append {b : DestinationBuffer} (h : b.Fits) {produced : ByteArray}
    (hp : produced.size ≤ b.free) : (b.append produced).Fits := by
  unfold Fits at h ⊢
  rw [size_append]
  unfold free at hp
  show _ ≤ b.capacity
  omega

theorem fits_rewind (b : DestinationBuffer) : b.rewind.Fits := Nat.zero_le _

theorem fits_of_empty {b : DestinationBuffer} (h : b.bytes = .empty) : b.Fits := by
  unfold Fits
  rw [h]
  exact Nat.zero_le _

/-- All of a buffer that holds nothing is free. -/
theorem free_of_empty {b : DestinationBuffer} (h : b.bytes = .empty) : b.free = b.capacity := by
  unfold free
  rw [h]
  rfl

/-- A buffer that held something has room when it is emptied. -/
theorem Fits.isFull_rewind {b : DestinationBuffer} (h : b.Fits) (hne : b.bytes.size ≠ 0) :
    b.rewind.isFull = false := by
  unfold Fits at h
  refine beq_eq_false_iff_ne.mpr ?_
  show 0 ≠ b.capacity
  omega

/-- A buffer has room unless it is full. -/
theorem Fits.free_pos_iff {b : DestinationBuffer} (h : b.Fits) :
    0 < b.free ↔ b.isFull = false := by
  unfold Fits at h
  unfold free isFull
  rw [beq_eq_false_iff_ne]
  omega

/-- Output that does not fill the buffer leaves room in it. -/
theorem isFull_append {b : DestinationBuffer} (h : b.Fits) {produced : ByteArray}
    (hp : produced.size ≤ b.free) :
    (b.append produced).isFull = false ↔ produced.size < b.free := by
  unfold Fits at h
  unfold free at hp ⊢
  unfold isFull
  rw [beq_eq_false_iff_ne, size_append, capacity_append]
  omega

/-- What has filled a buffer with room is something. -/
theorem size_ne_zero_of_isFull {b : DestinationBuffer} (h : b.Fits) (hroom : 0 < b.free)
    {produced : ByteArray} (hp : produced.size ≤ b.free)
    (hfull : (b.append produced).isFull = true) : produced.size ≠ 0 := by
  intro hzero
  rw [(isFull_append h hp).mpr (by omega)] at hfull
  cases hfull

section Flush

variable {ε : Type} [Writer ε]

/-- **A flush hands the output to the writer.** It makes no read. If it succeeds, there was output,
the writer took all of it, and none is left; if it fails, the buffer is as it was. -/
theorem flush_calls (turns : Nat) (b : DestinationBuffer) (o : Observed ε) :
    ∃ more, (b.flush turns o).2.2.calls = o.calls ++ more ∧ (∀ c ∈ more, c.isRead = false)
      ∧ acceptedBy more <+: b.bytes.data.toList
      ∧ ((b.flush turns o).1 = .ok () → b.bytes.size ≠ 0 ∧ (b.flush turns o).2.1 = b.rewind
          ∧ acceptedBy more = b.bytes.data.toList)
      ∧ (∀ h, (b.flush turns o).1 = .error h → (b.flush turns o).2.1 = b) := by
  unfold flush
  split
  · exact ⟨[], by simp, by simp, List.nil_prefix, by simp, by simp⟩
  · next hne =>
    obtain ⟨more, hcalls, hread, hpre, hall⟩ := writeAll_calls turns o (.ofBytes b.bytes)
    rw [Slice.toList_ofBytes] at hpre hall
    split
    · next heq =>
      rw [heq] at hcalls hall
      exact ⟨more, hcalls, hread, hpre, fun _ => ⟨hne, rfl, hall rfl⟩, by simp⟩
    · next heq =>
      rw [heq] at hcalls
      exact ⟨more, hcalls, hread, hpre, by simp, by simp⟩

/-- A flush of some output to a writer in a fine state comes to an end, and succeeds. -/
theorem flush_settles {fine : ε → Prop} (hfine : Obliges fine) {b : DestinationBuffer}
    {o : Observed ε} (hb : b.bytes.size ≠ 0) (ho : fine o.ends) :
    ∃ o', Settles (fun turns => b.flush turns o) (.ok (), b.rewind, o') ∧ fine o'.ends := by
  obtain ⟨o', hwritten, ho'⟩ := writeAll_settles hfine _ (.ofBytes b.bytes) rfl o ho
  refine ⟨o', hwritten.imp fun turns hrun => ?_, ho'⟩
  simp only [flush, if_neg hb, hrun]

end Flush

end DestinationBuffer

/-! ## Growable buffers -/

namespace GrowableBuffer

/-- The output is within the length, there is no more room than one unit, and the unit is not
nothing. -/
structure Fits (b : GrowableBuffer) : Prop where
  /-- There is no more output than room was made for. -/
  size_le : b.bytes.size ≤ b.length
  /-- Room is made for one unit at a time. -/
  length_le : b.length ≤ b.bytes.size + b.unit
  /-- Growing makes room. -/
  unit_pos : 0 < b.unit

@[simp] theorem toList_append (b : GrowableBuffer) (produced : ByteArray) :
    (b.append produced).bytes.data.toList = b.bytes.data.toList ++ produced.data.toList := by
  simp [append]

@[simp] theorem unit_append (b : GrowableBuffer) (produced : ByteArray) :
    (b.append produced).unit = b.unit := rfl

theorem size_append (b : GrowableBuffer) (produced : ByteArray) :
    (b.append produced).bytes.size = b.bytes.size + produced.size := ByteArray.size_append

theorem create_eq {memory : Memory} {unit : Nat} {b : GrowableBuffer}
    (h : create memory unit = .ok b) : b = ⟨.empty, unit, unit⟩ := by
  unfold create at h
  split at h <;> cases h
  rfl

/-- A new buffer has one unit of room. -/
theorem fits_new {unit : Nat} (hunit : 0 < unit) : Fits ⟨.empty, unit, unit⟩ :=
  ⟨Nat.zero_le _, Nat.le_add_left _ _, hunit⟩

theorem Fits.append {b : GrowableBuffer} (h : b.Fits) {produced : ByteArray}
    (hp : produced.size ≤ b.free) : (b.append produced).Fits := by
  have := h.size_le
  have := h.length_le
  unfold free at hp
  refine ⟨?_, ?_, h.unit_pos⟩
  · rw [size_append]
    show _ ≤ b.length
    omega
  · rw [size_append, unit_append]
    show b.length ≤ _
    omega

theorem Fits.free_pos_iff {b : GrowableBuffer} (h : b.Fits) : 0 < b.free ↔ b.isFull = false := by
  have := h.size_le
  unfold free isFull
  rw [beq_eq_false_iff_ne]
  omega

/-- Output that does not fill the buffer leaves room in it. -/
theorem Fits.isFull_append {b : GrowableBuffer} (h : b.Fits) {produced : ByteArray}
    (hp : produced.size ≤ b.free) :
    (b.append produced).isFull = false ↔ produced.size < b.free := by
  have := h.size_le
  unfold free at hp ⊢
  unfold isFull
  rw [beq_eq_false_iff_ne, size_append]
  show _ ≠ b.length ↔ _
  omega

/-- A buffer that has grown holds what it held, and has one unit of room. -/
theorem Fits.grow {memory : Memory} {b b' : GrowableBuffer} (h : b.Fits)
    (hg : b.grow memory = .ok b') :
    b'.Fits ∧ b'.bytes = b.bytes ∧ b'.unit = b.unit ∧ b'.isFull = false := by
  unfold GrowableBuffer.grow at hg
  split at hg
  · cases hg
  · dsimp only at hg
    split at hg <;> cases hg
    have hpos := h.unit_pos
    refine ⟨⟨Nat.le_add_right _ _, Nat.le_refl _, hpos⟩, rfl, rfl, beq_eq_false_iff_ne.mpr ?_⟩
    show b.bytes.size ≠ b.bytes.size + b.unit
    omega

/-- A full buffer can be grown, if there is memory. -/
theorem Fits.grow_of_isFull {memory : Memory} {b : GrowableBuffer} (h : b.Fits)
    (hfull : b.isFull = true) (hm : memory.grants (b.bytes.size + b.unit) = true) :
    ∃ b', b.grow memory = .ok b' := by
  -- growing is refused only to a buffer with a whole unit free
  have hpos := h.unit_pos
  have hsize : b.bytes.size = b.length := beq_iff_eq.mp hfull
  have hfree : b.free ≠ b.unit := by
    unfold free
    omega
  refine ⟨{ b with length := b.bytes.size + b.unit }, ?_⟩
  simp only [GrowableBuffer.grow, if_neg hfree, if_pos hm]

/-- A buffer into which something was put can be grown, if there is memory. -/
theorem Fits.grow_of_append {memory : Memory} {b : GrowableBuffer} (h : b.Fits)
    {produced : ByteArray} (hp : produced.size ≤ b.free) (hne : produced.size ≠ 0)
    (hm : memory.grants ((b.append produced).bytes.size + (b.append produced).unit) = true) :
    ∃ b', (b.append produced).grow memory = .ok b' := by
  have hlength := h.length_le
  have hfree : (b.append produced).free ≠ (b.append produced).unit := by
    unfold free at hp ⊢
    rw [size_append, unit_append]
    show b.length - _ ≠ _
    omega
  refine ⟨{ b.append produced with
    length := (b.append produced).bytes.size + (b.append produced).unit }, ?_⟩
  simp only [GrowableBuffer.grow, if_neg hfree, if_pos hm]

end GrowableBuffer

end Zstandard
