import Zstandard.Buffer.Memory
import Zstandard.Endpoint

/-!
# Destination buffers: room for a codec's output

A destination buffer has a fixed capacity. What a codec produced stays in it until it is flushed
into a writer or drained by the caller, and either leaves it empty. Flushing an empty buffer is
an error: who asks for it needs more room than there is.
-/

namespace Zstandard

/-- Output of a codec that nobody has taken yet. -/
structure DestinationBuffer where
  bytes : ByteArray
  capacity : Nat

namespace DestinationBuffer

/-- An empty buffer of a given capacity. -/
def create (memory : Memory) (capacity : Nat) : Except Error DestinationBuffer :=
  if memory.grants capacity then .ok ⟨.empty, capacity⟩ else .error .allocateFailed

/-- The room that is left. -/
def free (b : DestinationBuffer) : Nat := b.capacity - b.bytes.size

/-- Whether no room is left. -/
def isFull (b : DestinationBuffer) : Bool := b.bytes.size == b.capacity

/-- The buffer with more output in it. -/
def append (b : DestinationBuffer) (produced : ByteArray) : DestinationBuffer :=
  match b with
  | ⟨bytes, capacity⟩ => ⟨bytes ++ produced, capacity⟩

/-- The buffer without its output. -/
def rewind (b : DestinationBuffer) : DestinationBuffer := { b with bytes := .empty }

/-- Writes the output out and rewinds; there has to be some. -/
def flush {ω : Type} [Writer ω] (turns : Nat) (b : DestinationBuffer) (w : ω) :
    Except (Halt Error) Unit × DestinationBuffer × ω :=
  if b.bytes.size = 0 then (.error (.failed .notEnoughDestinationBuffer), b, w)
  else
    match writeAll turns w (Slice.ofBytes b.bytes) with
    | (.ok (), w) => (.ok (), b.rewind, w)
    | (.error e, w) => (.error (e.map .writeIo), b, w)

/-- Writes the output out and rewinds, if there is any. -/
def writeRemaining {ω : Type} [Writer ω] (turns : Nat) (b : DestinationBuffer) (w : ω) :
    Except (Halt Error) Unit × DestinationBuffer × ω :=
  if b.bytes.size = 0 then (.ok (), b, w) else b.flush turns w

/-- Takes the output and rewinds. -/
def drain (b : DestinationBuffer) : ByteArray × DestinationBuffer := (b.bytes, b.rewind)

end DestinationBuffer

end Zstandard
