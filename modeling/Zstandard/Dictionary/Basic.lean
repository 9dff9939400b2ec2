import Zstandard.Error.Basic
import Zstandard.Slice

/-!
# Dictionaries

A dictionary is a non-empty run of bytes that a frame may refer back to. One that begins with
the magic number is structured: an identifier and tables follow, and then the content. Any other
is content from its first byte on.
-/

namespace Zstandard

/-- A non-empty run of bytes that frames may refer back to. -/
structure Dictionary where
  bytes : ByteArray
  size_ne_zero : bytes.size ≠ 0
  deriving DecidableEq

namespace Dictionary

/-- The number a structured dictionary begins with. -/
def magicNumber : Nat := 0xEC30A437

/-- The capacity a dictionary is built with if none is asked for. -/
def defaultCapacity : Nat := 110 * 1024

/-- The dictionary with these bytes; there has to be one. -/
def ofBytes? (bytes : ByteArray) : Except Error Dictionary :=
  if h : bytes.size ≠ 0 then .ok ⟨bytes, h⟩
  else .error (.validateFailed "dictionary buffer should not be empty")

/-- The number of bytes. -/
def size (d : Dictionary) : Nat := d.bytes.size

/-- Whether the dictionary begins with the magic number. -/
def isStructured (d : Dictionary) : Bool :=
  decide (4 ≤ d.size) && (Slice.ofBytes d.bytes).littleEndian 0 4 == magicNumber

/-- The identifier behind the magic number; 0 and a missing one are none. -/
def id? (d : Dictionary) : Option Nat :=
  if 8 ≤ d.size ∧ d.isStructured then
    match (Slice.ofBytes d.bytes).littleEndian 4 4 with
    | 0 => none
    | n => some n
  else none

/-- A short form that leaves the bytes out. -/
def summary (d : Dictionary) : String :=
  let shown := match d.id? with
    | none => "None"
    | some n => "Some(" ++ toString n ++ ")"
  "Dictionary \x7b len: " ++ toString d.size ++ ", id: " ++ shown ++ " \x7d"

end Dictionary

end Zstandard
