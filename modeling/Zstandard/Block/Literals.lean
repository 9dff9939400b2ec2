import Zstandard.Block.Entropy
import Zstandard.Frame.Header

/-!
# The literals of a block

Literals are stored as they are, as one byte repeated, or Huffman coded in one stream or four. A
coded section brings its table, or goes on with the one before it. The header says how many
literals there are, which has to fit both a block and the room there is.

Where the literals are kept while their block is decoded decides on the room its content has. If
there is so much that they fit behind the largest block, that is where they go, and a block that
is too large stops before them. A few are kept apart. Of many the last ones are, and the others
stand at the end of the block's own room (`Overlay`), where its content must not catch up with
them.
-/

namespace Zstandard

/-- What the content of a block has to keep to. -/
structure BlockBounds where
  /-- The largest block of the frame. -/
  blockMax : Nat
  /-- Where in memory the content begins. -/
  start : Nat
  /-- How many bytes the memory has from there on. -/
  room : Nat
  /-- Whether there may be earlier content behind a block's largest size. -/
  inRing : Bool

/-- Literals that stand in memory where the content of their block will. -/
structure Overlay where
  /-- The place of the next one. -/
  start : Nat
  /-- The place behind the last one. -/
  stop : Nat

/-- The literals of a block, with the size of their section. -/
structure Literals where
  bytes : Slice
  /-- The size of the section. -/
  size : Nat
  /-- The table the next block may go on with. -/
  huffman : Option HuffmanTable
  /-- The ones in the way of the block's content. -/
  overlay : Option Overlay
  /-- The room for the block's content. -/
  room : Nat

namespace Literals

/-- What the header of a coded section says. -/
structure CodedHeader where
  /-- The size of the header. -/
  size : Nat
  count : Nat
  codedSize : Nat
  single : Bool

/-- The header of a coded section. -/
def CodedHeader.read (s : Slice) : CodedHeader :=
  match (s.byte 0).toNat / 4 % 4 with
  | 0 => ⟨3, s.bits 4 10, s.bits 14 10, true⟩
  | 1 => ⟨3, s.bits 4 10, s.bits 14 10, false⟩
  | 2 => ⟨4, s.bits 4 14, s.bits 18 14, false⟩
  | _ => ⟨5, s.bits 4 18, s.bits 22 18, false⟩

/-- The sizes of a plain section's header and of its literals. -/
def plainHeader (s : Slice) : Nat × Nat :=
  match (s.byte 0).toNat / 4 % 4 with
  | 1 => (2, s.bits 4 12)
  | 3 => (3, s.bits 4 20)
  | _ => (1, s.bits 3 5)

/-- Why there must not be `count` literals, if so. -/
def refusal? (b : BlockBounds) (count : Nat) : Option ErrorCode :=
  if b.blockMax < count then some .corruptionDetected
  else if b.room < count then some .destinationTooSmall
  else none

/-- How many literals can be kept apart. -/
def apartLimit : Nat := 65536

/-- How far a copy may write beyond its end. Literals keep this distance from what is before
them and behind them. -/
def gap : Nat := 32

/-- Which of `count` literals stand in the way of the block's content, and what room it has. -/
def keep (b : BlockBounds) (count : Nat) : Option Overlay × Nat :=
  if !b.inRing && decide (b.blockMax + gap + count + gap < b.room) then (none, b.blockMax + gap)
  else if count ≤ apartLimit then (none, b.room)
  else
    let start := b.start + (min b.blockMax b.room - count) + (apartLimit - gap)
    (some ⟨start, start + (count - apartLimit)⟩, b.room)

/-- Decodes the streams of a coded section. -/
def decodeStreams (h : CodedHeader) (table : HuffmanTable) (s : Slice) :
    Except ErrorCode ByteArray :=
  match if h.single then table.decode? s h.count .empty else table.decodeFour? s h.count with
  | some bytes => .ok bytes
  | none => .error .corruptionDetected

/-- Reads a coded section, whose table is `inherited` or stands in front of the streams. A new
table for a single stream is made for one byte at a time, and one for four as it pays. -/
def readCoded (s : Slice) (b : BlockBounds) (inherited : Option HuffmanTable) :
    Except ErrorCode Literals :=
  if s.size < 5 then .error .corruptionDetected
  else
    let h := CodedHeader.read s
    if b.blockMax < h.count then .error .corruptionDetected
    else if !h.single && decide (h.count < 6) then .error .literalsHeaderWrong
    else if s.size < h.size + h.codedSize then .error .corruptionDetected
    else if b.room < h.count then .error .destinationTooSmall
    else
      let coded := (s.drop h.size).take h.codedSize
      match (match inherited with
        | some table => some (table, 0)
        | none => Huffman.read? coded (!h.single && Huffman.pairsPay h.count h.codedSize)) with
      | none => .error .corruptionDetected
      | some (table, tableSize) =>
        match decodeStreams h table (coded.drop tableSize) with
        | .error e => .error e
        | .ok bytes =>
          let (overlay, room) := keep b h.count
          .ok ⟨.ofBytes bytes, h.size + h.codedSize, some table, overlay, room⟩

/-- Reads the literals at the front of a block. Stored ones with enough behind them are used where
they are. -/
def read (s : Slice) (b : BlockBounds) (huffman : Option HuffmanTable) :
    Except ErrorCode Literals :=
  if s.size < 2 then .error .corruptionDetected
  else
    match (s.byte 0).toNat % 4 with
    | 0 =>
      let (headerSize, count) := plainHeader s
      if s.size < headerSize then .error .corruptionDetected
      else
        match refusal? b count with
        | some e => .error e
        | none =>
          if s.size < headerSize + count then .error .corruptionDetected
          else
            let (overlay, room) :=
              if headerSize + count + gap ≤ s.size then (none, b.room) else keep b count
            .ok ⟨(s.drop headerSize).take count, headerSize + count, huffman, overlay, room⟩
    | 1 =>
      let (headerSize, count) := plainHeader s
      if s.size < headerSize + 1 then .error .corruptionDetected
      else
        match refusal? b count with
        | some e => .error e
        | none =>
          let bytes := ⟨Array.replicate count (s.byte headerSize)⟩
          let (overlay, room) := keep b count
          .ok ⟨.ofBytes bytes, headerSize + 1, huffman, overlay, room⟩
    | 2 => readCoded s b none
    | _ =>
      match huffman with
      | none => .error .dictionaryCorrupted
      | some table => readCoded s b (some table)

end Literals

end Zstandard
