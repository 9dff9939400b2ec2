import Zstandard.Block.Sequences

/-!
# Decoding a compressed block

A compressed block is a section of literals and a section of sequences. Decoding appends the
block's content to the window, and leaves tables and offsets for the next block.

Sequences are applied as they are read, or with some of them read ahead, so that what they copy
has time to come from far away. That is done once for a dictionary that has not been used
before, and where many offsets are long in a long history. It makes no difference to what is
decoded, but to which one of two faults is found first.
-/

namespace Zstandard

/-- The content of a frame so far, and what the next block inherits. -/
structure Decoded where
  window : Window
  inheritance : Inheritance
  /-- There is a dictionary, and it has not been used. -/
  cold : Bool

namespace Block

/-- How many sequences are read ahead. -/
def readAhead : Nat := 8

/-- A history that is longer than this is a long one. -/
def longHistory : Nat := 2 ^ 24

/-- Offsets with a larger code are long. -/
def longOffsetCode : Nat := 22

/-- The share of long offsets among the cells of a table, of 256. -/
def longShare (t : FseTable) : Nat :=
  (t.cells.filter (longOffsetCode < ·.symbol)).size <<< (8 - t.log)

/-- Whether it pays to read some of `n` sequences ahead. -/
def paysToReadAhead (n history : Nat) (offsets : FseTable) : Bool :=
  decide (longHistory < history ∧ 8 < n ∧ 7 ≤ longShare offsets)

/-- Appends what is left of the literals, and hands on the tables. -/
def conclude (i : Inheritance) (state : Sequences.State) : Except ErrorCode Decoded :=
  match state with
  | ⟨window, literals, _, room⟩ =>
    if room < literals.size then .error .destinationTooSmall
    else .ok ⟨window.append literals, i, false⟩

/-- Decodes the sequences at the front of `s` into the room of `state`. -/
def decodeSequences (s : Slice) (b : BlockBounds) (i : Inheritance) (cold : Bool)
    (state : Sequences.State) : Except ErrorCode Decoded :=
  match Sequences.count s with
  | .error e => .error e
  | .ok (n, size) =>
    let s := s.drop size
    if n = 0 then if s.isEmpty then conclude i state else .error .corruptionDetected
    else
      match Sequences.readTables i.tables s with
      | .error e => .error e
      | .ok (tables, size) =>
        if state.room = 0 then .error .destinationTooSmall
        else
          let history := state.window.reach + min b.room b.blockMax
          let ahead :=
            if cold || paysToReadAhead n history tables.offsets then min n readAhead else 0
          match BitStack.ofSlice? (s.drop size) with
          | none => .error .corruptionDetected
          | some stack =>
            match Sequences.run tables n ahead i.offsets stack state with
            | .error e => .error e
            | .ok (state, offsets) => conclude { i with tables := some tables, offsets } state

/-- Decodes a compressed block. -/
def decode (s : Slice) (b : BlockBounds) (d : Decoded) : Except ErrorCode Decoded :=
  if b.blockMax < s.size then .error .sourceSizeWrong
  else
    match d with
    | ⟨window, inheritance, cold⟩ =>
      match Literals.read s b inheritance.huffman with
      | .error e => .error e
      | .ok l =>
        decodeSequences (s.drop l.size) b { inheritance with huffman := l.huffman } cold
          ⟨window, l.bytes, l.overlay, l.room⟩

/-- Appends one byte `n` times. -/
def repeated (byte : UInt8) (n : Nat) : Slice := .ofBytes ⟨Array.replicate n byte⟩

end Block

end Zstandard
