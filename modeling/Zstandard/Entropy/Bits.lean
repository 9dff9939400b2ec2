import Zstandard.Slice

/-!
# Bits of a run of bytes

Bit `i` of a run of bytes is bit `i % 8` of byte `i / 8`. A description of a distribution is read
from the front. A compressed stream is read from the back: it was written front to back, its
last bit is a 1 that marks the end, and what was written last is read first. `BitStack` is such a
stream, with the number of bits that are still on it.

A reader may ask for more bits than there are. It is not stopped at once: it finds out in the end,
when it asks whether the stream was used up (`BitStack.isUsedUp`). Until then it is given what a
register of 64 bits holds. The register stays at the bottom of the stream, and the distance it is
shifted by counts modulo 64, so it matters whether the bits that are asked for are brought to the
top of the register (`peek`) or to its bottom (`peekLow`). Where there are enough bits the two are
the same.
-/

namespace Zstandard

/-- The `n` bits from bit `i` on, as a number; bits behind the end are 0. -/
def Slice.bits (s : Slice) (i n : Nat) : Nat :=
  (s.littleEndian (i / 8) ((i % 8 + n + 7) / 8) >>> (i % 8)) % 2 ^ n

/-- A stream of bits that is read from its end. -/
structure BitStack where
  bytes : Slice
  /-- How many bits have not been read. -/
  left : Nat
  /-- How many bits were asked for below the bottom. -/
  missing : Nat

namespace BitStack

/-- The bits below the end mark of a stream; none if there is no mark. -/
def ofSlice? (s : Slice) : Option BitStack :=
  if s.isEmpty then none
  else
    let last := (s.byte (s.size - 1)).toNat
    if last = 0 then none else some ⟨s, 8 * (s.size - 1) + last.log2, 0⟩

/-- Whether the stream was read to its bottom and no further. -/
def isUsedUp (b : BitStack) : Bool := b.left == 0 && b.missing == 0

/-- The lowest word of the stream, which the register holds from when bits run out. -/
def lowest (b : BitStack) : Nat := b.bytes.littleEndian 0 8

/-- The next `n` bits, brought to the top of the register and cut off there. -/
def peek (b : BitStack) (n : Nat) : Nat :=
  if n ≤ b.left then b.bytes.bits (b.left - n) n
  else (b.lowest <<< ((64 + b.missing - b.left) % 64) % 2 ^ 64) >>> (64 - n)

/-- The next `n` bits, brought to the bottom of the register and cut off there. -/
def peekLow (b : BitStack) (n : Nat) : Nat :=
  if n ≤ b.left then b.bytes.bits (b.left - n) n
  else (b.lowest >>> ((64 + b.left - (b.missing + n) % 64) % 64)) % 2 ^ n

/-- The stream behind its next `n` bits. -/
def skip (b : BitStack) (n : Nat) : BitStack :=
  if n ≤ b.left then { b with left := b.left - n }
  else { b with left := 0, missing := b.missing + (n - b.left) }

/-- Takes `n` bits off, if there are as many. -/
def pop? (b : BitStack) (n : Nat) : Option (Nat × BitStack) :=
  if n ≤ b.left then some (b.bytes.bits (b.left - n) n, { b with left := b.left - n }) else none

end BitStack

/-- A stream of bits being written from its front: whole bytes, and the bits above them. -/
structure BitWriter where
  bytes : ByteArray
  /-- The bits that do not fill a byte yet. -/
  rest : Nat
  /-- How many those are. -/
  count : Nat

namespace BitWriter

/-- The stream without bits. -/
def empty : BitWriter := ⟨.empty, 0, 0⟩

/-- Moves `n` whole bytes out of the rest. -/
def shed (bytes : ByteArray) (rest count : Nat) : Nat → BitWriter
  | 0 => ⟨bytes, rest, count⟩
  | n + 1 => shed (bytes.push rest.toUInt8) (rest >>> 8) (count - 8) n

/-- The stream with the `n` low bits of `value` behind it. -/
def push (w : BitWriter) (value n : Nat) : BitWriter :=
  match w with
  | ⟨bytes, rest, count⟩ =>
    shed bytes (rest ||| ((value % 2 ^ n) <<< count)) (count + n) ((count + n) / 8)

/-- The bytes of the stream, filled up with 0 bits. -/
def pad (w : BitWriter) : ByteArray :=
  if w.count = 0 then w.bytes else w.bytes.push w.rest.toUInt8

/-- The bytes of the stream with the mark that ends a stream read from its end. -/
def close (w : BitWriter) : ByteArray := (w.push 1 1).pad

end BitWriter

end Zstandard
