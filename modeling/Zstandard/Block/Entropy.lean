import Zstandard.Block.Codes
import Zstandard.Entropy.Huffman

/-!
# What a block inherits

A block may use the tables of the block before it, and its repeated offsets are those the block
before left. At the beginning of a frame there are no tables, unless a dictionary brings some.
-/

namespace Zstandard

/-- The tables of the three alphabets. -/
structure SequenceTables where
  literalLengths : FseTable
  offsets : FseTable
  matchLengths : FseTable

/-- The last three offsets, the latest first. -/
structure RecentOffsets where
  first : Nat
  second : Nat
  third : Nat
  deriving Repr, DecidableEq, Inhabited

/-- The offsets a frame begins with. -/
def RecentOffsets.initial : RecentOffsets := ⟨1, 4, 8⟩

/-- The tables and offsets that one block leaves for the next. -/
structure Inheritance where
  huffman : Option HuffmanTable := none
  tables : Option SequenceTables := none
  offsets : RecentOffsets := .initial

end Zstandard
