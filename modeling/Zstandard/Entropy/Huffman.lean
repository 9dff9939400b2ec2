import Zstandard.Entropy.Fse

/-!
# Huffman codes for literals

A code gives each byte a weight: weight `w` stands for a share `2 ^ (w - 1)` of `2 ^ log`, so for
a codeword of `log + 1 - w` bits, and weight 0 for no codeword. The last byte's weight is not
written; it is what fills the shares up. A decoding table has a cell for each `log` bits that may
come next. Cells go to the weights in rising order and, within a weight, to the bytes in rising
order, so a codeword is the number of its first cell without the bits it leaves free.

A table is used for one byte at a time or for two, where two codewords fit into what is looked at
(`HuffmanTable.inPairs`). Both give the same bytes for a stream that was made from bytes. They
differ in what else they accept: if a pair comes up where one byte is left to decode, what is left
of the stream counts as part of it.

Four streams may lie side by side. If they are long enough they are decoded together
(`HuffmanTable.decodeJoined?`), each from its end towards the beginning of all four, and nobody
asks whether they are used up: only that none has run more than a byte into the one before it by
the time the shared part of the work is done.
-/

namespace Zstandard

/-- A cell for each of `2 ^ log` next bits: a byte, and the length of its codeword. -/
structure HuffmanTable where
  log : Nat
  symbols : ByteArray
  lengths : ByteArray
  /-- Whether two bytes are decoded at a time. -/
  inPairs : Bool

/-- The codeword of a byte; a length of 0 is none. -/
structure Codeword where
  value : Nat
  length : Nat
  deriving Repr, DecidableEq, Inhabited

namespace Huffman

/-- The most bits a codeword may have. -/
def maxLog : Nat := 12

/-! ## Weights -/

/-- Weights of four bits each, the first one high. -/
def directWeights (s : Slice) (count : Nat) : Array Nat :=
  (Array.range count).map fun i =>
    let b := (s.byte (1 + i / 2)).toNat
    if i % 2 = 0 then b / 16 else b % 16

/-- Weights from two interleaved states; the stream ends when a state cannot be followed. -/
def alternate (t : FseTable) :
    (fuel : Nat) → (state other : Nat) → BitStack → Array Nat → Option (Array Nat)
  | 0, _, _, _, _ => none
  | fuel + 1, state, other, b, weights =>
    if 253 < weights.size then none
    else
      let weights := weights.push (t.cell state).symbol
      match t.next? state b with
      | some (state, b) => alternate t fuel other state b weights
      | none => some (weights.push (t.cell other).symbol)

/-- The room it takes to decode weights: for the cells of a table of `2 ^ log` states, and for what
is needed to make it out of the shares of `symbols` symbols. -/
def weightRoom (log symbols : Nat) : Nat := 2 ^ log + (2 * symbols + 2 ^ log + 11) / 4

/-- Whether there is room to decode weights that are distributed like this. There is as much as
the twelve weights that may occur need with the largest table. -/
def hasRoom (d : Distribution) : Bool :=
  decide (d.log ≤ 6) && decide (weightRoom d.log d.shares.size ≤ weightRoom 6 maxLog)

/-- Compressed weights: a distribution and a stream. -/
def compressedWeights? (s : Slice) : Option (Array Nat) := do
  let (d, size) ← Distribution.read? s 256
  if !hasRoom d then none
  else
    let t := d.table
    let b ← BitStack.ofSlice? (s.drop size)
    let (first, b) ← t.start? b
    let (second, b) ← t.start? b
    alternate t 256 first second b #[]

/-- The weights at the front of `s`, without the last one, and the number of bytes they take. -/
def weights? (s : Slice) : Option (Array Nat × Nat) :=
  if s.isEmpty then none
  else
    let first := (s.byte 0).toNat
    if 128 ≤ first then
      let count := first - 127
      let size := (count + 1) / 2
      if s.size < size + 1 then none else some (directWeights s count, size + 1)
    else if s.size < first + 1 then none
    else
      match compressedWeights? ((s.drop 1).take first) with
      | none => none
      | some weights => some (weights, first + 1)

/-- The shares of some weights together. -/
def total (weights : Array Nat) : Nat := weights.foldl (fun sum w => sum + (2 ^ w) / 2) 0

/-- Weights with the last one added that fills the shares up to a power of 2, and that power's
exponent. Refused if there is no such weight, or if the longest codewords do not come in pairs. -/
def complete? (weights : Array Nat) : Option (Array Nat × Nat) :=
  let sum := total weights
  if sum = 0 ∨ weights.any (maxLog < ·) then none
  else
    let log := sum.log2 + 1
    let rest := 2 ^ log - sum
    if maxLog < log ∨ 2 ^ rest.log2 ≠ rest then none
    else
      let weights := weights.push (rest.log2 + 1)
      let longest := (weights.filter (· == 1)).size
      if longest < 2 ∨ longest % 2 = 1 then none else some (weights, log)

/-! ## Tables -/

/-- `count` cells for a byte. -/
def pushCells (symbol length : UInt8) : Nat → HuffmanTable → HuffmanTable
  | 0, t => t
  | n + 1, ⟨log, symbols, lengths, inPairs⟩ =>
    pushCells symbol length n ⟨log, symbols.push symbol, lengths.push length, inPairs⟩

/-- The cells for the bytes of one weight. -/
def pushWeight (weights : Array Nat) (log w : Nat) (t : HuffmanTable) : HuffmanTable :=
  (List.range weights.size).foldl
    (fun t s =>
      if weights.getD s 0 = w then
        pushCells s.toUInt8 (log + 1 - w).toUInt8 (2 ^ (w - 1)) t
      else t) t

/-- The table of complete weights. -/
def table (weights : Array Nat) (log : Nat) (inPairs : Bool) : HuffmanTable :=
  (List.range log).foldl (fun t i => pushWeight weights log (i + 1) t)
    ⟨log, .empty, .empty, inPairs⟩

/-- The table at the front of `s`, and the number of bytes it takes. -/
def read? (s : Slice) (inPairs : Bool) : Option (HuffmanTable × Nat) := do
  let (weights, size) ← weights? s
  let (weights, log) ← complete? weights
  some (table weights log inPairs, size)

/-! ## One byte or two -/

/-- What a table costs to make, and to decode 256 bytes with. -/
structure Cost where
  make : Nat
  use : Nat

/-- The cost of decoding `count` bytes. -/
def Cost.of (c : Cost) (count : Nat) : Nat := c.make + c.use * (count / 256)

/-- The costs for one byte at a time and for two. Entry `i` is for coded bytes that are from
`i / 16` to `(i + 1) / 16` as many as the bytes. -/
def costs : Array (Cost × Cost) :=
  #[(⟨0, 0⟩, ⟨1, 1⟩), (⟨0, 0⟩, ⟨1, 1⟩), (⟨150, 216⟩, ⟨381, 119⟩), (⟨170, 205⟩, ⟨514, 112⟩),
    (⟨177, 199⟩, ⟨539, 110⟩), (⟨197, 194⟩, ⟨644, 107⟩), (⟨221, 192⟩, ⟨735, 107⟩),
    (⟨256, 189⟩, ⟨881, 106⟩), (⟨359, 188⟩, ⟨1167, 109⟩), (⟨582, 187⟩, ⟨1570, 114⟩),
    (⟨688, 187⟩, ⟨1712, 122⟩), (⟨825, 186⟩, ⟨1965, 136⟩), (⟨976, 185⟩, ⟨2131, 150⟩),
    (⟨1180, 186⟩, ⟨2070, 175⟩), (⟨1377, 185⟩, ⟨1731, 202⟩), (⟨1412, 185⟩, ⟨1695, 202⟩)]

/-- Whether it pays to decode two bytes at a time, with a small handicap for the larger table. -/
def pairsPay (count codedSize : Nat) : Bool :=
  let (one, two) :=
    if count ≤ codedSize then (⟨1412, 185⟩, ⟨1695, 202⟩)
    else costs.getD (codedSize * 16 / count) (⟨0, 0⟩, ⟨1, 1⟩)
  let cost := two.of count
  decide (cost + cost / 32 < one.of count)

end Huffman

namespace HuffmanTable

/-- How many bits are looked at to decode a byte. -/
def indexLog (t : HuffmanTable) : Nat := max t.log 11

/-- The cell for some bits that come next, as many as are looked at. -/
def cellAt (t : HuffmanTable) (bits : Nat) : Nat := bits >>> (t.indexLog - t.log)

/-- The length of the codeword of a cell. -/
def lengthAt (t : HuffmanTable) (cell : Nat) : Nat := (byteAt t.lengths cell).toNat

/-- The cell behind that of the codeword that some bits begin with, if its codeword is among them
too. -/
def second? (t : HuffmanTable) (bits : Nat) : Option Nat :=
  let length := t.lengthAt (t.cellAt bits)
  let cell := t.cellAt ((bits <<< length) % 2 ^ t.indexLog)
  if length + t.lengthAt cell ≤ t.indexLog then some cell else none

/-! ## One stream -/

/-- Decodes `count` bytes, one at a time. -/
def decodeSingly (t : HuffmanTable) : (count : Nat) → BitStack → ByteArray → ByteArray × BitStack
  | 0, b, out => (out, b)
  | count + 1, b, out =>
    let cell := t.cellAt (b.peek t.indexLog)
    decodeSingly t count (b.skip (t.lengthAt cell)) (out.push (byteAt t.symbols cell))

/-- The stream behind a last byte, which begins the given bits. If they hold two bytes, the second
one may break off, or be missing. -/
def skipLast (t : HuffmanTable) (bits : Nat) (b : BitStack) : BitStack :=
  let length := t.lengthAt (t.cellAt bits)
  match t.second? bits with
  | none => b.skip length
  | some cell => b.skip (min b.left (length + t.lengthAt cell))

/-- Decodes `count` bytes, two at a time where two codewords fit into what is looked at. -/
def decodeInPairs (t : HuffmanTable) : (count : Nat) → BitStack → ByteArray → ByteArray × BitStack
  | 0, b, out => (out, b)
  | 1, b, out =>
    let bits := b.peek t.indexLog
    (out.push (byteAt t.symbols (t.cellAt bits)), t.skipLast bits b)
  | count + 2, b, out =>
    let bits := b.peek t.indexLog
    let cell := t.cellAt bits
    let length := t.lengthAt cell
    let out := out.push (byteAt t.symbols cell)
    match t.second? bits with
    | none => decodeInPairs t (count + 1) (b.skip length) out
    | some cell =>
      decodeInPairs t count (b.skip (length + t.lengthAt cell)) (out.push (byteAt t.symbols cell))

/-- Decodes `count` bytes behind those of `out`. -/
def decodeStream (t : HuffmanTable) (count : Nat) (b : BitStack) (out : ByteArray) :
    ByteArray × BitStack :=
  if t.inPairs then t.decodeInPairs count b out else t.decodeSingly count b out

/-- Decodes `count` bytes from one stream behind those of `out`; they have to use it up. -/
def decode? (t : HuffmanTable) (s : Slice) (count : Nat) (out : ByteArray) : Option ByteArray :=
  match BitStack.ofSlice? s with
  | none => none
  | some b =>
    match t.decodeStream count b out with
    | (out, b) => if b.isUsedUp then some out else none

/-! ## Four streams -/

/-- One of four streams that are decoded together. -/
structure Lane where
  /-- What has not been read, down to the beginning of all streams. -/
  bits : BitStack
  /-- The place of the word in the register. -/
  place : Nat
  /-- Where the stream begins. -/
  floor : Nat
  /-- How many bytes are to be decoded. -/
  count : Nat
  decoded : ByteArray

namespace Lane

/-- The lane of the stream between two places. A last byte without an end mark is all data. -/
def create (s : Slice) (floor stop count : Nat) : Lane :=
  let last := (s.byte (stop - 1)).toNat
  let left := if last = 0 then 8 * stop else 8 * (stop - 1) + last.log2
  ⟨⟨s.take stop, left, 0⟩, stop - 8, floor, count, .empty⟩

/-- How many bytes are to be decoded yet. -/
def rest (l : Lane) : Nat := l.count - l.decoded.size

/-- Looks into the table `n` times, and moves the register. -/
def advance (t : HuffmanTable) : (n : Nat) → Lane → Lane
  | 0, ⟨b, _, floor, count, decoded⟩ => ⟨b, (b.left + 7) / 8 - 8, floor, count, decoded⟩
  | n + 1, ⟨b, place, floor, count, decoded⟩ =>
    let bits := b.peek t.indexLog
    let cell := t.cellAt bits
    let length := t.lengthAt cell
    let decoded := decoded.push (byteAt t.symbols cell)
    match (if t.inPairs then t.second? bits else none) with
    | none => advance t n ⟨b.skip length, place, floor, count, decoded⟩
    | some cell =>
      advance t n
        ⟨b.skip (length + t.lengthAt cell), place, floor, count,
          decoded.push (byteAt t.symbols cell)⟩

/-- Decodes the rest of the lane behind `out`, unless it has left its stream by more than a byte. -/
def finish? (t : HuffmanTable) (l : Lane) (out : ByteArray) : Option ByteArray :=
  if l.place + 8 < l.floor then none
  else
    match l with
    | ⟨bits, _, _, count, decoded⟩ =>
      let rest := count - decoded.size
      some (t.decodeStream rest bits (out ++ decoded)).1

end Lane

/-- Four lanes. -/
structure Lanes where
  first : Lane
  second : Lane
  third : Lane
  fourth : Lane

namespace Lanes

/-- How often five looks into the table are safe: none takes more than 11 bits, and none of the
lanes may go below the first one. -/
def safe (t : HuffmanTable) (l : Lanes) : Nat :=
  let input := l.first.place / 7
  if t.inPairs then
    [l.first, l.second, l.third, l.fourth].foldl (fun n lane => min n (lane.rest / 10)) input
  else min input (l.fourth.rest / 5)

/-- Whether the lanes stand in their order. -/
def inOrder (l : Lanes) : Bool :=
  decide (l.first.place ≤ l.second.place ∧ l.second.place ≤ l.third.place ∧
    l.third.place ≤ l.fourth.place)

/-- Five looks into the table for each lane, `n` times or until the fourth lane has `goal` bytes. -/
def advance (t : HuffmanTable) (goal : Nat) : (n : Nat) → Lanes → Lanes
  | 0, l => l
  | n + 1, ⟨first, second, third, fourth⟩ =>
    let fourth := fourth.advance t 5
    let l : Lanes := ⟨first.advance t 5, second.advance t 5, third.advance t 5, fourth⟩
    if goal ≤ l.fourth.decoded.size then l else advance t goal n l

/-- Goes on as long as it is safe and the lanes stand in their order. -/
def run (t : HuffmanTable) : (fuel : Nat) → Lanes → Lanes
  | 0, l => l
  | fuel + 1, l =>
    let n := l.safe t
    if n = 0 ∨ !l.inOrder then l
    else run t fuel (l.advance t (l.fourth.decoded.size + 5 * n) n)

/-- The bytes of all lanes. -/
def finish? (t : HuffmanTable) (l : Lanes) : Option ByteArray := do
  let out ← l.first.finish? t .empty
  let out ← l.second.finish? t out
  let out ← l.third.finish? t out
  l.fourth.finish? t out

end Lanes

/-- Decodes `count` bytes from four streams that lie behind the first six bytes of `s` and have
these sizes, all at once. -/
def decodeJoined? (t : HuffmanTable) (s : Slice) (size₁ size₂ size₃ count : Nat) :
    Option ByteArray :=
  let part := (count + 3) / 4
  let lanes : Lanes :=
    ⟨.create s 6 (6 + size₁) part, .create s (6 + size₁) (6 + size₁ + size₂) part,
      .create s (6 + size₁ + size₂) (6 + size₁ + size₂ + size₃) part,
      .create s (6 + size₁ + size₂ + size₃) s.size (count - 3 * part)⟩
  (lanes.run t (count + 1)).finish? t

/-- Decodes `count` bytes from such streams one after another. -/
def decodeApart? (t : HuffmanTable) (s : Slice) (size₁ size₂ size₃ count : Nat) :
    Option ByteArray := do
  let part := (count + 3) / 4
  let s := s.drop 6
  let out ← t.decode? (s.take size₁) part .empty
  let s := s.drop size₁
  let out ← t.decode? (s.take size₂) part out
  let s := s.drop size₂
  let out ← t.decode? (s.take size₃) part out
  t.decode? (s.drop size₃) (count - 3 * part) out

/-- Whether streams of these sizes, the last one of what is left, are decoded together: if none is
shorter than a word, the fourth has something to give, and the table is not the largest there is. -/
def joins (t : HuffmanTable) (sizes : List Nat) (count : Nat) : Bool :=
  t.indexLog == 11 && sizes.all (8 ≤ ·) && decide (3 * ((count + 3) / 4) < count)

/-- Decodes `count` bytes from four streams. Three of them have a quarter each, rounded up; the
sizes of those three stand in front. -/
def decodeFour? (t : HuffmanTable) (s : Slice) (count : Nat) : Option ByteArray :=
  let size₁ := s.littleEndian 0 2
  let size₂ := s.littleEndian 2 2
  let size₃ := s.littleEndian 4 2
  let taken := 6 + size₁ + size₂ + size₃
  if s.size < 10 ∨ s.size < taken then none
  else if t.joins [size₁, size₂, size₃, s.size - taken] count then
    t.decodeJoined? s size₁ size₂ size₃ count
  else t.decodeApart? s size₁ size₂ size₃ count

/-- Sets the codewords of the bytes of the first `n` cells, from the last cell to the first. -/
def collectCodewords (t : HuffmanTable) : (n : Nat) → Array Codeword → Array Codeword
  | 0, codewords => codewords
  | n + 1, codewords =>
    let length := (byteAt t.lengths n).toNat
    collectCodewords t n
      (codewords.setIfInBounds (byteAt t.symbols n).toNat ⟨n >>> (t.log - length), length⟩)

/-- The codewords of all bytes, each read off the byte's first cell. -/
def codewords (t : HuffmanTable) : Array Codeword :=
  t.collectCodewords t.symbols.size (Array.replicate 256 default)

end HuffmanTable

end Zstandard
