import Zstandard.Buffer.Memory

/-!
# Growable buffers: output of any size in one piece

A growable buffer starts with one unit of room. Each time it is grown it has exactly one unit of
room again, so it never asks for much more than it holds. Growing a buffer into which nothing
was put since it last grew is an error: a unit is not enough room.
-/

namespace Zstandard

/-- Output of a codec, collected from the start, in a buffer of `length` bytes. -/
structure GrowableBuffer where
  bytes : ByteArray
  length : Nat
  unit : Nat

namespace GrowableBuffer

/-- An empty buffer of one unit. -/
def create (memory : Memory) (unit : Nat) : Except Error GrowableBuffer :=
  if memory.grants unit then .ok ⟨.empty, unit, unit⟩ else .error .allocateFailed

/-- The room that is left. -/
def free (b : GrowableBuffer) : Nat := b.length - b.bytes.size

/-- Whether no room is left. -/
def isFull (b : GrowableBuffer) : Bool := b.bytes.size == b.length

/-- The buffer with more output in it. -/
def append (b : GrowableBuffer) (produced : ByteArray) : GrowableBuffer :=
  match b with
  | ⟨bytes, length, unit⟩ => ⟨bytes ++ produced, length, unit⟩

/-- The buffer with one unit of room behind its output. -/
def grow (memory : Memory) (b : GrowableBuffer) : Except Error GrowableBuffer :=
  if b.free = b.unit then .error .notEnoughDestinationBuffer
  else
    let length := b.bytes.size + b.unit
    if memory.grants length then .ok { b with length } else .error .allocateFailed

end GrowableBuffer

end Zstandard
