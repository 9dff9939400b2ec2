import Zstandard.Entropy.Fse

/-!
# Codes of lengths and offsets

A sequence is a number of literals, a match length and an offset. Each is written as a code from
a small alphabet and some extra bits, which are added to the code's base. Offsets are codes of
their own kind: code `n` stands for `2 ^ n` and `n` extra bits.

A frame may give the distributions of the codes itself. If it does not, the ones here are used.
-/

namespace Zstandard

/-- The base of a code, and the number of its extra bits. -/
structure CodeRange where
  base : Nat
  bits : Nat
  deriving Repr, DecidableEq, Inhabited

namespace CodeRange

/-- Ranges that follow each other without a gap, from `base` on, with these numbers of bits. -/
def sequence (base : Nat) : List Nat → List CodeRange
  | [] => []
  | bits :: rest => ⟨base, bits⟩ :: sequence (base + 2 ^ bits) rest

/-- The ranges of literal lengths. -/
def literalLengths : Array CodeRange :=
  (sequence 0
    (List.replicate 16 0 ++ [1, 1, 1, 1, 2, 2, 3, 3, 4, 6, 7, 8, 9, 10, 11, 12, 13, 14, 15,
      16])).toArray

/-- The ranges of match lengths, of which 3 is the least. -/
def matchLengths : Array CodeRange :=
  (sequence 3
    (List.replicate 32 0 ++ [1, 1, 1, 1, 2, 2, 3, 3, 4, 4, 5, 7, 8, 9, 10, 11, 12, 13, 14, 15,
      16])).toArray

/-- The code whose range holds `value`. -/
def codeOf (ranges : Array CodeRange) (value : Nat) : Nat :=
  (ranges.findIdx? fun r => decide (r.base ≤ value ∧ value < r.base + 2 ^ r.bits)).getD 0

end CodeRange

/-- The three alphabets of a sequence. -/
inductive CodeKind where
  | literalLength
  | offset
  | matchLength
  deriving Repr, DecidableEq, Inhabited

namespace CodeKind

/-- How many codes there are. -/
def count : CodeKind → Nat
  | .literalLength => 36
  | .offset => 32
  | .matchLength => 53

/-- The largest logarithm a table may have. -/
def maxLog : CodeKind → Nat
  | .literalLength => 9
  | .offset => 8
  | .matchLength => 9

/-- The distribution that is used if a frame gives none. -/
def standard : CodeKind → Distribution
  | .literalLength => ⟨6, #[4, 3, 2, 2, 2, 2, 2, 2, 2, 2, 2, 2, 2, 1, 1, 1, 2, 2, 2, 2, 2, 2, 2,
      2, 2, 3, 2, 1, 1, 1, 1, 1, -1, -1, -1, -1]⟩
  | .offset => ⟨5, #[1, 1, 1, 1, 1, 1, 2, 2, 2, 1, 1, 1, 1, 1, 1, 1, 1, 1, 1, 1, 1, 1, 1, 1, -1,
      -1, -1, -1, -1]⟩
  | .matchLength => ⟨6, #[1, 4, 3, 2, 2, 2, 2, 2, 2, 1, 1, 1, 1, 1, 1, 1, 1, 1, 1, 1, 1, 1, 1, 1,
      1, 1, 1, 1, 1, 1, 1, 1, 1, 1, 1, 1, 1, 1, 1, 1, 1, 1, 1, 1, 1, 1, -1, -1, -1, -1, -1, -1,
      -1]⟩

/-- The table that is used if a frame gives none. -/
def standardTable (k : CodeKind) : FseTable := k.standard.table

end CodeKind

end Zstandard
