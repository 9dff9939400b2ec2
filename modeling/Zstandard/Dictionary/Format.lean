import Zstandard.Block.Entropy
import Zstandard.Dictionary.Basic
import Zstandard.Error.Code

/-!
# The format of structured dictionaries

Behind the magic number and the identifier stand the tables a frame may begin with: a Huffman
table for literals, distributions for offsets, match lengths and literal lengths, and three
repeated offsets. What follows is content, and a repeated offset has to lie inside it. `load`
takes a dictionary apart for use; one that begins with the magic number and breaks off or
contradicts the format cannot be used at all.
-/

namespace Zstandard

/-- A dictionary as a frame uses it. -/
structure LoadedDictionary where
  /-- 0 is none. -/
  id : Nat
  /-- All of it. A decoded match may reach back to its first byte. -/
  bytes : Slice
  /-- What stands behind the tables. -/
  content : Slice
  /-- What the first block of a frame begins with. -/
  inheritance : Inheritance

namespace Dictionary

/-- A distribution at the front of `s` that fits an alphabet. -/
def readDistribution? (kind : CodeKind) (s : Slice) : Option (FseTable × Nat) :=
  match Distribution.read? s kind.count with
  | none => none
  | some (d, size) => if kind.maxLog < d.log then none else some (d.table, size)

/-- The tables of a structured dictionary, and the place its content begins at. -/
def tables? (s : Slice) : Option (Inheritance × Nat) := do
  if s.size ≤ 8 then none
  else
    let place := 8
    let (huffman, n) ← Huffman.read? (s.drop place) true
    let place := place + n
    let (offsets, n) ← readDistribution? .offset (s.drop place)
    let place := place + n
    let (matchLengths, n) ← readDistribution? .matchLength (s.drop place)
    let place := place + n
    let (literalLengths, n) ← readDistribution? .literalLength (s.drop place)
    let place := place + n
    if s.size < place + 12 then none
    else
      let content := s.size - (place + 12)
      let recent : RecentOffsets :=
        ⟨s.littleEndian place 4, s.littleEndian (place + 4) 4, s.littleEndian (place + 8) 4⟩
      if [recent.first, recent.second, recent.third].any fun o => o == 0 || content < o then none
      else some (⟨some huffman, some ⟨literalLengths, offsets, matchLengths⟩, recent⟩, place + 12)

/-- The size of everything before the content of a structured dictionary. -/
def headerSize (d : Dictionary) : Except Error Nat :=
  if d.isStructured then
    match tables? (.ofBytes d.bytes) with
    | some (_, size) => .ok size
    | none => .error ErrorCode.dictionaryCorrupted.toError
  else .error ErrorCode.dictionaryCorrupted.toError

/-- A dictionary made ready for use. -/
def load (d : Dictionary) : Except ErrorCode LoadedDictionary :=
  let s := Slice.ofBytes d.bytes
  if 8 ≤ d.size ∧ d.isStructured then
    match tables? s with
    | none => .error .memoryAllocation
    | some (inheritance, size) => .ok ⟨s.littleEndian 4 4, s, s.drop size, inheritance⟩
  else .ok ⟨0, s, s, {}⟩

end Dictionary

end Zstandard
