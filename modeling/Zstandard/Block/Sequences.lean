import Zstandard.Block.Literals
import Zstandard.Window

/-!
# The sequences of a block

A sequence copies some literals and then a match: bytes that stand a certain offset back, in the
content decoded so far or in the dictionary before it. Behind a block's literals its sequences
follow: their number, a mode for each of the three alphabets with the tables that need one, and
one bit stream. What is left of the literals after the last sequence ends the block.

Reading the stream never fails: bits that are missing are made up (`BitStack.peek`), and an offset
that cannot be meant is read as one that no window reaches (`farthest`). The stream has to be used
up, though. The sequences are read before they are applied, all of them here; whether the stream
was used up may be asked before the last few are applied (`run`).
-/

namespace Zstandard

/-- One sequence. The offset is at least 1. -/
structure Match where
  literals : Nat
  length : Nat
  offset : Nat
  deriving Repr, DecidableEq, Inhabited

namespace Sequences

/-! ## Header and tables -/

/-- The number of sequences, and the size it takes. -/
def count (s : Slice) : Except ErrorCode (Nat × Nat) :=
  if s.isEmpty then .error .sourceSizeWrong
  else
    let first := (s.byte 0).toNat
    if first < 128 then .ok (first, 1)
    else if first = 255 then
      if s.size < 3 then .error .sourceSizeWrong else .ok (s.littleEndian 1 2 + 32512, 3)
    else if s.size < 2 then .error .sourceSizeWrong
    else .ok ((first - 128) * 256 + (s.byte 1).toNat, 2)

/-- The table of an alphabet in the given mode, and the size it takes. -/
def readTable (kind : CodeKind) (mode : Nat) (inherited : Option FseTable) (s : Slice) :
    Option (FseTable × Nat) :=
  match mode with
  | 0 => some (kind.standardTable, 0)
  | 1 =>
    if s.isEmpty then none
    else
      let symbol := (s.byte 0).toNat
      if symbol < kind.count then some (.constant symbol, 1) else none
  | 2 =>
    match Distribution.read? s kind.count with
    | none => none
    | some (d, size) => if kind.maxLog < d.log then none else some (d.table, size)
  | _ => inherited.map fun t => (t, 0)

/-- The tables at the front of `s`, behind a byte of modes, and the size they take. -/
def readTables (inherited : Option SequenceTables) (s : Slice) :
    Except ErrorCode (SequenceTables × Nat) :=
  if s.isEmpty then .error .sourceSizeWrong
  else
    let modes := (s.byte 0).toNat
    if modes % 4 ≠ 0 then .error .corruptionDetected
    else
      let tables : Option (SequenceTables × Nat) := do
        let size := 1
        let (literalLengths, n) ← readTable .literalLength (modes / 64)
          (inherited.map (·.literalLengths)) (s.drop size)
        let size := size + n
        let (offsets, n) ← readTable .offset (modes / 16 % 4) (inherited.map (·.offsets))
          (s.drop size)
        let size := size + n
        let (matchLengths, n) ← readTable .matchLength (modes / 4 % 4)
          (inherited.map (·.matchLengths)) (s.drop size)
        return (⟨literalLengths, offsets, matchLengths⟩, size + n)
      match tables with
      | some t => .ok t
      | none => .error .corruptionDetected

/-! ## Offsets -/

/-- An offset beyond every window. -/
def farthest : Nat := 2 ^ 64 - 1

/-- The offset that an offset value stands for, and the recent offsets after it. The values up
to 3 stand for recent offsets; without literals they count from the second one, and the third is
one less than the first. An offset of 0 cannot be meant. -/
def resolveOffset (r : RecentOffsets) (value : Nat) (noLiterals : Bool) : Nat × RecentOffsets :=
  if 3 < value then (value - 3, ⟨value - 3, r.first, r.second⟩)
  else
    match (if noLiterals then value + 1 else value) with
    | 1 => (r.first, r)
    | 2 => (r.second, ⟨r.second, r.first, r.third⟩)
    | 3 => (r.third, ⟨r.third, r.first, r.second⟩)
    | _ =>
      let offset := if r.first ≤ 1 then farthest else r.first - 1
      (offset, ⟨offset, r.first, r.second⟩)

/-! ## The bit stream -/

/-- The states of the three tables. -/
structure States where
  literalLength : Nat
  offset : Nat
  matchLength : Nat

/-- The states a stream begins with. -/
def States.start (t : SequenceTables) (b : BitStack) : States × BitStack :=
  let (literalLength, b) := t.literalLengths.start b
  let (offset, b) := t.offsets.start b
  let (matchLength, b) := t.matchLengths.start b
  (⟨literalLength, offset, matchLength⟩, b)

/-- The states for the next sequence. -/
def States.next (t : SequenceTables) (s : States) (b : BitStack) : States × BitStack :=
  let (literalLength, b) := t.literalLengths.next s.literalLength b
  let (matchLength, b) := t.matchLengths.next s.matchLength b
  let (offset, b) := t.offsets.next s.offset b
  (⟨literalLength, offset, matchLength⟩, b)

/-- The sequence of some states, and the recent offsets after it. -/
def readMatch (t : SequenceTables) (s : States) (r : RecentOffsets) (b : BitStack) :
    Match × RecentOffsets × BitStack :=
  let offsetCode := (t.offsets.cell s.offset).symbol
  let extra := b.peek offsetCode
  let b := b.skip offsetCode
  let lengthRange := CodeRange.matchLengths.getD (t.matchLengths.cell s.matchLength).symbol default
  let extraLength := b.peek lengthRange.bits
  let b := b.skip lengthRange.bits
  let literalRange :=
    CodeRange.literalLengths.getD (t.literalLengths.cell s.literalLength).symbol default
  let extraLiterals := b.peek literalRange.bits
  let b := b.skip literalRange.bits
  let literals := literalRange.base + extraLiterals
  let (offset, r) := resolveOffset r (2 ^ offsetCode + extra) (literals == 0)
  (⟨literals, lengthRange.base + extraLength, offset⟩, r, b)

/-- Reads `n` sequences. The states do not move on behind the last one. -/
def readMatches (t : SequenceTables) :
    (n : Nat) → States → RecentOffsets → BitStack → Array Match →
    Array Match × RecentOffsets × BitStack
  | 0, _, r, b, read => (read, r, b)
  | n + 1, states, r, b, read =>
    match readMatch t states r b with
    | (m, r, b) =>
      let read := read.push m
      if n = 0 then (read, r, b)
      else
        match states.next t b with
        | (states, b) => readMatches t n states r b read

/-! ## Copying -/

/-- What is decoded so far, and what is left to decode it from. -/
structure State where
  window : Window
  /-- The literals that no sequence has copied. -/
  literals : Slice
  /-- Those of them that stand where the block's content will. -/
  overlay : Option Overlay
  /-- How many bytes the block may still have. -/
  room : Nat

/-- The rest of an overlay behind its first `n` literals; there is none where it has fewer. -/
def Overlay.drop? (o : Overlay) (n : Nat) : Option Overlay :=
  if o.start + n ≤ o.stop then some ⟨o.start + n, o.stop⟩ else none

/-- Whether the next `n` literals are overwritten while they are copied to `place`. -/
def Overlay.isHit (o : Overlay) (n place : Nat) : Bool :=
  decide (o.start + n ≤ o.stop ∧ o.start < place ∧ place < o.start + n)

/-- Copies the literals and the match of one sequence. -/
def State.apply (s : State) (m : Match) : Except ErrorCode State :=
  match s with
  | ⟨window, literals, overlay, room⟩ =>
    if room < m.literals + m.length then .error .destinationTooSmall
    else if literals.size < m.literals then .error .corruptionDetected
    else if overlay.any (Overlay.isHit · m.literals window.stop) then .error .destinationTooSmall
    else
      match (window.append (literals.take m.literals)).copyBack? m.offset m.length with
      | none => .error .corruptionDetected
      | some window =>
        .ok ⟨window, literals.drop m.literals, overlay.bind (Overlay.drop? · m.literals),
          room - (m.literals + m.length)⟩

/-- Applies the sequences from `i` on, `n` of them. -/
def State.applyAll (read : Array Match) : (n i : Nat) → State → Except ErrorCode State
  | 0, _, s => .ok s
  | n + 1, i, s =>
    match s.apply (read.getD i default) with
    | .error e => .error e
    | .ok s => applyAll read n (i + 1) s

/-- Reads `n` sequences from a stream and applies them. When `ahead` of them are left it is asked
whether they took the whole stream. Gives the recent offsets for the next block. -/
def run (t : SequenceTables) (n ahead : Nat) (r : RecentOffsets) (b : BitStack) (s : State) :
    Except ErrorCode (State × RecentOffsets) :=
  match States.start t b with
  | (states, b) =>
    match readMatches t n states r b (Array.mkEmpty n) with
    | (read, r, b) =>
      match s.applyAll read (n - ahead) 0 with
      | .error e => .error e
      | .ok s =>
        if !b.isUsedUp then .error .corruptionDetected
        else
          match s.applyAll read ahead (n - ahead) with
          | .error e => .error e
          | .ok s => .ok (s, r)

end Sequences

end Zstandard
