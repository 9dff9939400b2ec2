import Zstandard.Block.Literals.Encode
import Zstandard.Block.Sequences.Encode
import Zstandard.Frame.Header

/-!
# Encoding a block

A block is stored as it is, unless copies and codes make it smaller by more than a little. A
compressed block leaves three things for the next one: the Huffman code of its literals, its latest
offsets, and the places where its bytes were seen. A stored block leaves the places only. A block of
one byte repeated is written as such if it would come out small anyway, but never as the first one
of a frame.
-/

namespace Zstandard

namespace Block

/-- The literals of a block: what the copies do not cover. -/
def literalsOf (content : Slice) : List Copy → ByteArray → ByteArray
  | [], out => content.appendTo out
  | c :: rest, out =>
    literalsOf (content.drop (c.literals + c.length)) rest
      ((content.take c.literals).appendTo out)

/-- Whether all bytes are the same. -/
def isUniform (content : Slice) : Bool :=
  (List.range content.size).all fun i => content.byte i == content.byte 0

/-- A block smaller than this is never compressed. -/
def leastSize : Nat := 7

/-- A block of one byte repeated is written as such if its compressed form is smaller than this. -/
def repeatedLimit : Nat := 25

/-- The compressed form of a block with these copies behind one with the given code, if that
saves enough; and the code for the next block. -/
def compressed? (code : Option LiteralCode) (content : Slice) (copies : Array Copy) :
    Option (ByteArray × Option LiteralCode) :=
  match Literals.write code (literalsOf content copies.toList .empty) with
  | (literals, code) =>
    match Sequences.write? copies with
    | none => none
    | some sequences =>
      let body := literals ++ sequences
      if content.size ≤ body.size + gain content.size then none else some (body, code)

end Block

/-- What the encoder of a frame carries from block to block. -/
structure BlockCoder where
  finder : MatchFinder
  code : Option LiteralCode
  isFirst : Bool

namespace BlockCoder

/-- A block, compressed if that pays. -/
def encode (coder : BlockCoder) (content : Slice) (last : Bool) : ByteArray × BlockCoder :=
  match coder with
  | ⟨finder, code, isFirst⟩ =>
    let recent := finder.recent
    let n := content.size
    match finder.block content with
    | (copies, finder) =>
      let stored := content.appendTo (BlockHeader.write ⟨.raw, n, last⟩)
      if n < Block.leastSize then (stored, ⟨{ finder with recent }, code, false⟩)
      else
        match Block.compressed? code content copies with
        | none => (stored, ⟨{ finder with recent }, code, false⟩)
        | some (body, after) =>
          if !isFirst && decide (body.size < Block.repeatedLimit) && Block.isUniform content then
            ((BlockHeader.write ⟨.repeated, n, last⟩).push (content.byte 0),
              ⟨{ finder with recent }, code, false⟩)
          else
            (BlockHeader.write ⟨.compressed, body.size, last⟩ ++ body, ⟨finder, after, false⟩)

end BlockCoder

end Zstandard
