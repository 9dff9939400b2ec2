import Zstandard.Codec
import Zstandard.Endpoint

/-!
# Scripted readers, writers and codecs

Ends and codecs that do what a script says, one entry for each call, and keep a record of the
calls: short reads and writes, failures, steps that use or produce nothing. They are what a
driver is tried out on. When its script is over, a reader gives what it has, a writer takes
everything, and a codec does nothing.

`Recorded` keeps a record of the steps of any codec.
-/

namespace Zstandard

/-! ## Readers -/

/-- A reader over `data`. Each event is a bound on one read, or a failure. -/
structure ScriptedReader where
  data : Slice
  events : List (Except IoError Nat)
  /-- The room of each read, and how much it gave; a failure gave nothing. -/
  calls : Array (Nat × Option Nat)

namespace ScriptedReader

/-- A read of at most `bound` bytes. -/
def give (r : ScriptedReader) (room bound : Nat) : Except IoError ByteArray × ScriptedReader :=
  let chunk := r.data.take (min room bound)
  (.ok chunk.toBytes,
    { r with data := r.data.drop chunk.size, calls := r.calls.push (room, some chunk.size) })

/-- One read, as the script says. -/
def read (r : ScriptedReader) (room : Nat) : Except IoError ByteArray × ScriptedReader :=
  match r.events with
  | [] => r.give room room
  | .ok bound :: events => { r with events }.give room bound
  | .error e :: events => (.error e, { r with events, calls := r.calls.push (room, none) })

theorem give_size_le {r r' : ScriptedReader} {room bound : Nat} {b : ByteArray}
    (h : r.give room bound = (.ok b, r')) : b.size ≤ room := by
  simp only [give, Prod.mk.injEq, Except.ok.injEq] at h
  have hs : ∀ s : Slice, s.toBytes.size = s.size := fun s => s.length_toList
  rw [← h.1, hs, Slice.size_take]
  omega

instance : Reader ScriptedReader where
  read := read
  size_le h := by
    unfold read at h
    split at h
    · exact give_size_le h
    · exact give_size_le h
    · simp at h

end ScriptedReader

/-! ## Writers -/

/-- A call of a writer, and what came of it. -/
inductive WriterCall where
  | write (offered : Nat) (taken : Option Nat)
  | flush (succeeded : Bool)
  deriving Repr, DecidableEq

/-- A writer that keeps what it takes. Each event of a write is a bound, or a failure; each event
of a flush is a failure or none. -/
structure ScriptedWriter where
  bytes : ByteArray
  writes : List (Except IoError Nat)
  flushes : List (Except IoError Unit)
  calls : Array WriterCall

namespace ScriptedWriter

/-- A write of which at most `bound` bytes are taken. -/
def accept (w : ScriptedWriter) (s : Slice) (bound : Nat) : Except IoError Nat × ScriptedWriter :=
  match w with
  | ⟨bytes, writes, flushes, calls⟩ =>
    let n := min bound s.size
    (.ok n, ⟨(s.take n).appendTo bytes, writes, flushes, calls.push (.write s.size (some n))⟩)

/-- One write, as the script says. -/
def write (w : ScriptedWriter) (s : Slice) : Except IoError Nat × ScriptedWriter :=
  match w with
  | ⟨bytes, [], flushes, calls⟩ => accept ⟨bytes, [], flushes, calls⟩ s s.size
  | ⟨bytes, .ok bound :: writes, flushes, calls⟩ => accept ⟨bytes, writes, flushes, calls⟩ s bound
  | ⟨bytes, .error e :: writes, flushes, calls⟩ =>
    (.error e, ⟨bytes, writes, flushes, calls.push (.write s.size none)⟩)

/-- One flush, as the script says. -/
def flush (w : ScriptedWriter) : Except IoError Unit × ScriptedWriter :=
  match w with
  | ⟨bytes, writes, [], calls⟩ => (.ok (), ⟨bytes, writes, [], calls.push (.flush true)⟩)
  | ⟨bytes, writes, .ok () :: flushes, calls⟩ =>
    (.ok (), ⟨bytes, writes, flushes, calls.push (.flush true)⟩)
  | ⟨bytes, writes, .error e :: flushes, calls⟩ =>
    (.error e, ⟨bytes, writes, flushes, calls.push (.flush false)⟩)

instance : Writer ScriptedWriter where
  write := write
  flush := flush
  taken_le {w w' s n} h := by
    unfold write at h
    split at h
    · simp only [accept, Prod.mk.injEq, Except.ok.injEq] at h
      omega
    · simp only [accept, Prod.mk.injEq, Except.ok.injEq] at h
      omega
    · simp at h

end ScriptedWriter

/-! ## Codecs -/

/-- One step of a script: use at most `take` bytes and put out what fits of `emit`, or fail. -/
inductive ScriptedStep where
  | act (take : Nat) (emit : ByteArray) (completion : Completion)
  | fail (error : Error)

/-- A codec that does what a script says. -/
structure ScriptedCodec where
  steps : List ScriptedStep

namespace ScriptedCodec

/-- One step, as the script says. -/
def step (c : ScriptedCodec) (input : Slice) (room : Nat) (_ : Directive) :
    Except Error Step × ScriptedCodec :=
  match c.steps with
  | [] => (.ok ⟨0, .empty, .pending⟩, c)
  | .act take emit completion :: steps =>
    (.ok ⟨min take input.size, emit.extract 0 (min emit.size room), completion⟩, ⟨steps⟩)
  | .fail e :: steps => (.error e, ⟨steps⟩)

instance : Codec ScriptedCodec where
  step := boundedStep step
  endOfInput _ := .ok ()
  consumed_le h := (fits_of_boundedStep h).1
  produced_le h := (fits_of_boundedStep h).2

end ScriptedCodec

/-- A codec that copies its input, at most `limit` bytes in a step, and ends with `trailer`. -/
structure CopyingCodec where
  limit : Option Nat
  trailer : Slice

namespace CopyingCodec

/-- One step. -/
def step (c : CopyingCodec) (input : Slice) (room : Nat) (directive : Directive) :
    Except Error Step × CopyingCodec :=
  match directive with
  | .finish =>
    let part := c.trailer.take room
    let trailer := c.trailer.drop part.size
    (.ok ⟨0, part.toBytes, if trailer.isEmpty then .done else .pending⟩, { c with trailer })
  | _ =>
    let part := input.take (min room (c.limit.getD room))
    (.ok ⟨part.size, part.toBytes, .pending⟩, c)

instance : Codec CopyingCodec where
  step := boundedStep step
  endOfInput _ := .ok ()
  consumed_le h := (fits_of_boundedStep h).1
  produced_le h := (fits_of_boundedStep h).2

end CopyingCodec

/-- A step that a codec was asked for, and what came of it. -/
structure StepCall where
  input : Slice
  room : Nat
  directive : Directive
  result : Except Error Step

/-- A codec with a record of its steps, the latest last. -/
structure Recorded (κ : Type) where
  codec : κ
  calls : Array StepCall

namespace Recorded

variable {κ : Type} [Codec κ]

/-- One step, which is recorded. -/
def step (c : Recorded κ) (input : Slice) (room : Nat) (directive : Directive) :
    Except Error Step × Recorded κ :=
  match Codec.step c.codec input room directive with
  | (result, codec) => (result, ⟨codec, c.calls.push ⟨input, room, directive, result⟩⟩)

/-- The result of a recorded step is the codec's. -/
theorem step_result {c c' : Recorded κ} {input : Slice} {room : Nat} {directive : Directive}
    {result : Except Error Step} (h : c.step input room directive = (result, c')) :
    Codec.step c.codec input room directive = (result, c'.codec) := by
  unfold step at h
  split at h
  · next heq => cases h; exact heq

instance : Codec (Recorded κ) where
  step := step
  endOfInput c := Codec.endOfInput c.codec
  consumed_le h := Codec.consumed_le (step_result h)
  produced_le h := Codec.produced_le (step_result h)

end Recorded

end Zstandard
