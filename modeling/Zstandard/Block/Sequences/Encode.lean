import Zstandard.Block.Matches
import Zstandard.Block.Sequences
import Zstandard.Entropy.FseEncoder
import Zstandard.Entropy.Shares

/-!
# Encoding sequences

The codes of each alphabet get a table of their own if they are many and some of them are frequent;
if they are all the same, a table with a single symbol; and else the table that needs no
description. The stream of sequences is written from the last sequence to the first, because it is
read from its end.
-/

namespace Zstandard

namespace Sequences

/-- The codes of a sequence, and its extra bits with their numbers. -/
structure Coded where
  literalCode : Nat
  lengthCode : Nat
  offsetCode : Nat
  literalExtra : Nat × Nat
  lengthExtra : Nat × Nat
  offsetExtra : Nat × Nat

namespace Coded

/-- The codes of a copy. -/
def ofCopy (c : Copy) : Coded :=
  let literalCode := CodeRange.codeOf CodeRange.literalLengths c.literals
  let lengthCode := CodeRange.codeOf CodeRange.matchLengths c.length
  let literalRange := CodeRange.literalLengths.getD literalCode default
  let lengthRange := CodeRange.matchLengths.getD lengthCode default
  let offsetCode := c.offsetValue.log2
  { literalCode, lengthCode, offsetCode
    literalExtra := (c.literals - literalRange.base, literalRange.bits)
    lengthExtra := (c.length - lengthRange.base, lengthRange.bits)
    offsetExtra := (c.offsetValue - 2 ^ offsetCode, offsetCode) }

/-- The extra bits of a sequence, in the order opposite to reading. -/
def push (c : Coded) (w : BitWriter) : BitWriter :=
  ((w.push c.literalExtra.1 c.literalExtra.2).push c.lengthExtra.1 c.lengthExtra.2).push
    c.offsetExtra.1 c.offsetExtra.2

end Coded

/-! ## Tables -/

/-- A table that is chosen for an alphabet: its mode, and what is written to tell it. -/
structure TableChoice where
  mode : Nat
  description : ByteArray
  encoder : FseEncoder

namespace TableChoice

/-- The table that needs no description. -/
def standard (kind : CodeKind) : TableChoice :=
  ⟨0, .empty, kind.standardTable.encoder kind.count⟩

/-- The table with a single symbol. -/
def constant (kind : CodeKind) (symbol : Nat) : TableChoice :=
  ⟨1, ⟨#[symbol.toUInt8]⟩, (FseTable.constant symbol).encoder kind.count⟩

/-- So many codes give the rare ones less than a state each. -/
def manyCodes : Nat := 2048

/-- A table for `n` codes that occur as often as `counts` say. The last code stands in the state
that the stream begins with, so it counts one time less if it occurs more than once. -/
def described (kind : CodeKind) (counts : Array Nat) (n last : Nat) : TableChoice :=
  let log := Distribution.logFor kind.maxLog n (counts.size - 1) 2
  let isFrequent := decide (1 < counts.getD last 0)
  let counts := if isFrequent then counts.modify last (· - 1) else counts
  let total := if isFrequent then n - 1 else n
  let d := Distribution.ofCounts log (if total < manyCodes then 1 else -1) counts
  ⟨2, d.write, d.table.encoder kind.count⟩

/-- The table for some codes, of which `last` is the last one. -/
def make (kind : CodeKind) (codes : List Nat) (last : Nat) : TableChoice :=
  let n := codes.length
  let counts := Distribution.histogram codes
  let most := counts.foldl max 0
  let log := kind.standard.log
  let isStandard := decide (counts.size ≤ kind.standard.shares.size)
  if most = n then
    if isStandard && decide (n ≤ 2) then standard kind else constant kind last
  else if isStandard && decide (n < 2 ^ log ∨ most < n / 2 ^ (log - 1)) then standard kind
  else described kind counts n last

end TableChoice

/-- The tables for the three alphabets. -/
structure TableChoices where
  literalLengths : TableChoice
  offsets : TableChoice
  matchLengths : TableChoice

namespace TableChoices

/-- The tables for some sequences, of which `last` is the last one. -/
def make (coded : List Coded) (last : Coded) : TableChoices :=
  ⟨.make .literalLength (coded.map (·.literalCode)) last.literalCode,
    .make .offset (coded.map (·.offsetCode)) last.offsetCode,
    .make .matchLength (coded.map (·.lengthCode)) last.lengthCode⟩

/-- The byte of modes, and the tables behind it. -/
def write (t : TableChoices) : ByteArray :=
  ⟨#[(t.literalLengths.mode * 64 + t.offsets.mode * 16 + t.matchLengths.mode * 4).toUInt8]⟩
    ++ t.literalLengths.description ++ t.offsets.description ++ t.matchLengths.description

/-- The size of the last distribution that is written; 0 if there is none. -/
def lastDescribed (t : TableChoices) : Nat :=
  [t.literalLengths, t.offsets, t.matchLengths].foldl
    (fun size c => if c.mode = 2 then c.description.size else size) 0

end TableChoices

/-! ## Writing -/

/-- The number of sequences. -/
def writeCount (n : Nat) : ByteArray :=
  if n < 128 then pushLittleEndian .empty n 1
  else if n < 32512 then pushLittleEndian (pushLittleEndian .empty (n / 256 + 128) 1) n 1
  else pushLittleEndian (pushLittleEndian .empty 255 1) (n - 32512) 2

/-- Sequences, from the last to the first, in front of those that begin with `states`. -/
def pushSequences (t : TableChoices) :
    List Coded → States → BitWriter → Option (States × BitWriter)
  | [], states, w => some (states, w)
  | c :: rest, states, w => do
    let (offset, w) ← t.offsets.encoder.lead? c.offsetCode states.offset w
    let (matchLength, w) ← t.matchLengths.encoder.lead? c.lengthCode states.matchLength w
    let (literalLength, w) ← t.literalLengths.encoder.lead? c.literalCode states.literalLength w
    pushSequences t rest ⟨literalLength, offset, matchLength⟩ (c.push w)

/-- The stream of sequences, given from the last to the first. -/
def stream? (t : TableChoices) : List Coded → Option ByteArray
  | [] => none
  | c :: rest => do
    let literalLength ← t.literalLengths.encoder.last? c.literalCode
    let offset ← t.offsets.encoder.last? c.offsetCode
    let matchLength ← t.matchLengths.encoder.last? c.lengthCode
    let (states, w) ← pushSequences t rest ⟨literalLength, offset, matchLength⟩ (c.push .empty)
    let w := t.matchLengths.encoder.pushState states.matchLength w
    let w := t.offsets.encoder.pushState states.offset w
    let w := t.literalLengths.encoder.pushState states.literalLength w
    return w.close

/-- The least size of the last distribution and the stream behind it, for the sake of readers that
take four bytes at once. -/
def leastTail : Nat := 4

/-- The section of sequences, if they can be written. -/
def write? (copies : Array Copy) : Option ByteArray :=
  let count := writeCount copies.size
  match (copies.map Coded.ofCopy).toList.reverse with
  | [] => some count
  | last :: before =>
    let tables := TableChoices.make (last :: before) last
    match stream? tables (last :: before) with
    | none => none
    | some stream =>
      let tail := tables.lastDescribed
      if tail ≠ 0 ∧ tail + stream.size < leastTail then none
      else some (count ++ tables.write ++ stream)

end Sequences

end Zstandard
