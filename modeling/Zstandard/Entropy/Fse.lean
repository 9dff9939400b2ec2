import Zstandard.Entropy.Bits
import Zstandard.Error.Code

/-!
# Finite state entropy

A distribution gives each symbol a share of `2 ^ log` states; a share of -1 is less than one
state and gets a single one. A table has a cell per state: the symbol that the state stands for,
and the range of states that may come next, as a base and a number of bits. Decoding emits the
symbol and reads the bits.
-/

namespace Zstandard

/-- Shares of states for the symbols 0, 1, 2, …; -1 is less than one. -/
structure Distribution where
  log : Nat
  shares : Array Int
  deriving Repr, DecidableEq, Inhabited

/-- The symbol of a state, and the range of states that may come next. -/
structure FseCell where
  symbol : Nat
  bits : Nat
  base : Nat
  deriving Repr, DecidableEq, Inhabited

/-- A cell for each of `2 ^ log` states. -/
structure FseTable where
  log : Nat
  cells : Array FseCell
  deriving Repr, DecidableEq, Inhabited

namespace Distribution

/-- A description is read through a register of 32 bits, which is never moved beyond its last four
bytes. A place behind those bytes is taken modulo 32 from their beginning. -/
def place (size bit : Nat) : Nat :=
  let last := 8 * (size - 4)
  if bit < last then bit else last + (bit - last) % 32

/-- The number of pairs of 1 bits in front, up to `n`. -/
def pairs (s : Slice) : (n : Nat) → (bit : Nat) → Nat
  | 0, _ => 0
  | n + 1, bit => if s.bits bit 2 = 3 then pairs s n (bit + 2) + 1 else 0

/-- Skips a run of symbols without states: three for each pair of 1 bits, and then up to two more.
The register is moved behind twelve pairs and behind the run. Gives the number of symbols and the
next bit. -/
def zeroRun (s : Slice) (size : Nat) : (fuel : Nat) → (bit count : Nat) → Nat × Nat
  | 0, bit, count => (count, bit)
  | fuel + 1, bit, count =>
    let n := pairs s 12 bit
    if n = 12 then zeroRun s size fuel (place size (bit + 24)) (count + 36)
    else
      let bit := bit + 2 * n
      (count + 3 * n + s.bits bit 2, place size (bit + 2))

/-- Reads shares until all states are given away. `remaining` is one more than the states that
are left. -/
def readShares (s : Slice) (size symbols : Nat) :
    (fuel : Nat) → (bit remaining : Nat) → (afterZero : Bool) → Array Int →
    Option (Array Int × Nat)
  | 0, _, _, _, _ => none
  | fuel + 1, bit, remaining, afterZero, shares =>
    let (skipped, bit) := if afterZero then zeroRun s size (size + 8) bit 0 else (0, bit)
    if symbols ≤ shares.size + skipped then none
    else
      let shares := shares ++ Array.replicate skipped (0 : Int)
      let width := remaining.log2 + 1
      let threshold := 2 ^ (width - 1)
      let short := 2 * threshold - 1 - remaining
      let low := s.bits bit (width - 1)
      let (value, bit) :=
        if low < short then (low, bit + (width - 1))
        else
          let wide := s.bits bit width
          (if threshold ≤ wide then wide - short else wide, bit + width)
      let share : Int := (value : Int) - 1
      let remaining := remaining - share.natAbs
      let shares := shares.push share
      if remaining ≤ 1 then
        if remaining = 1 then some (shares, bit) else none
      else readShares s size symbols fuel (place size bit) remaining (share == 0) shares

/-- Reads a distribution of at most `symbols` symbols from the front of `s`. Gives it with the
number of bytes it takes. Fewer than eight bytes are read as if zeros followed. -/
def read? (s : Slice) (symbols : Nat) : Option (Distribution × Nat) :=
  let log := s.bits 0 4 + 5
  if 15 < log then none
  else
    let size := max 8 s.size
    match readShares s size symbols (symbols + 1) 4 (2 ^ log + 1) false #[] with
    | none => none
    | some (shares, bit) =>
      let n := (bit + 7) / 8
      if n ≤ s.size then some (⟨log, shares⟩, n) else none

/-- Writes a run of symbols without states. -/
def writeZeroRun (w : BitWriter) : (fuel : Nat) → (count : Nat) → BitWriter
  | 0, _ => w
  | fuel + 1, count =>
    if 3 ≤ count then writeZeroRun (w.push 3 2) fuel (count - 3) else w.push count 2

/-- Writes shares; a run of zeros behind a zero is written as its length. -/
def writeShares : (fuel : Nat) → List Int → (remaining : Nat) → (afterZero : Bool) →
    BitWriter → BitWriter
  | 0, _, _, _, w => w
  | fuel + 1, shares, remaining, afterZero, w =>
    if remaining ≤ 1 then w
    else
      let zeros := if afterZero then (shares.takeWhile (· == 0)).length else 0
      let w := if afterZero then writeZeroRun w (zeros + 1) zeros else w
      match shares.drop zeros with
      | [] => w
      | share :: rest =>
        let width := remaining.log2 + 1
        let threshold := 2 ^ (width - 1)
        let short := 2 * threshold - 1 - remaining
        let value := (share + 1).toNat
        let w :=
          if value < short then w.push value (width - 1)
          else w.push (if threshold ≤ value then value + short else value) width
        writeShares fuel rest (remaining - share.natAbs) (share == 0) w

/-- The bytes of a distribution. -/
def write (d : Distribution) : ByteArray :=
  (writeShares (d.shares.size + 1) d.shares.toList (2 ^ d.log + 1) false
    (BitWriter.empty.push (d.log - 5) 4)).pad

/-- The symbols with less than one state, in order. -/
def rare (d : Distribution) : List Nat :=
  (List.range d.shares.size).filter fun s => d.shares.getD s 0 == -1

/-- Every symbol as often as it has states, without the rare ones. -/
def common (d : Distribution) : List Nat :=
  (List.range d.shares.size).flatMap fun s => List.replicate (d.shares.getD s 0).toNat s

/-- The place after `position` in the spreading order, below `limit`. -/
def nextPlace (size limit : Nat) : (fuel : Nat) → (position : Nat) → Nat
  | 0, position => position
  | fuel + 1, position =>
    let next := (position + (size / 2 + size / 8 + 3)) % size
    if next < limit then next else nextPlace size limit fuel next

/-- Puts symbols one after another into the spreading order. -/
def spread (size limit : Nat) : List Nat → (position : Nat) → Array Nat → Array Nat
  | [], _, symbols => symbols
  | s :: rest, position, symbols =>
    spread size limit rest (nextPlace size limit size position) (symbols.setIfInBounds position s)

/-- Puts the rare symbols at the end, the first one last. -/
def placeRare : List Nat → (stop : Nat) → Array Nat → Array Nat
  | [], _, symbols => symbols
  | s :: rest, stop, symbols => placeRare rest (stop - 1) (symbols.setIfInBounds (stop - 1) s)

/-- The symbol of each state. -/
def symbols (d : Distribution) : Array Nat :=
  let size := 2 ^ d.log
  let rare := d.rare
  spread size (size - rare.length) d.common 0
    (placeRare rare size (Array.replicate size 0))

/-- The cells for the states of `symbols`, each symbol's states counting up from its share. -/
def cells (log : Nat) : List Nat → (next : Array Nat) → Array FseCell → Array FseCell
  | [], _, cells => cells
  | s :: rest, next, cs =>
    let x := next.getD s 1
    let bits := log - x.log2
    cells log rest (next.setIfInBounds s (x + 1)) (cs.push ⟨s, bits, (x <<< bits) - 2 ^ log⟩)

/-- The table of a distribution. -/
def table (d : Distribution) : FseTable :=
  ⟨d.log, cells d.log d.symbols.toList (d.shares.map Int.natAbs) #[]⟩

end Distribution

namespace FseTable

/-- The table with a single symbol, which takes no bits. -/
def constant (symbol : Nat) : FseTable := ⟨0, #[⟨symbol, 0, 0⟩]⟩

/-- The cell of a state. -/
def cell (t : FseTable) (state : Nat) : FseCell := t.cells.getD state default

/-- The first state of a stream. -/
def start (t : FseTable) (b : BitStack) : Nat × BitStack := (b.peekLow t.log, b.skip t.log)

/-- The state after `state`. -/
def next (t : FseTable) (state : Nat) (b : BitStack) : Nat × BitStack :=
  let c := t.cell state
  (c.base + b.peekLow c.bits, b.skip c.bits)

/-- The first state of a stream, if it has the bits for it. -/
def start? (t : FseTable) (b : BitStack) : Option (Nat × BitStack) := b.pop? t.log

/-- The state after `state`, if there are the bits for it. -/
def next? (t : FseTable) (state : Nat) (b : BitStack) : Option (Nat × BitStack) :=
  let c := t.cell state
  match b.pop? c.bits with
  | none => none
  | some (v, b) => some (c.base + v, b)

end FseTable

end Zstandard
