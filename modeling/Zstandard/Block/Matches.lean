import Zstandard.Slice

/-!
# Finding matches

The finder keeps the bytes that matches may reach and two tables of places: for each hash of eight
bytes, and for each hash of a few bytes, the last place where it was entered. It goes through a
block from left to right. At each place it looks for the latest offset again, one byte further on;
then for a place with the same eight bytes; then for one with the same four, which it gives up for
a longer match right behind. The longer it finds nothing, the larger its steps. Whatever it takes
is a match: the bytes are compared, the tables only say where to look.
-/

namespace Zstandard

/-- A copy in a block: some literals, and a match of which the offset is the latest one or is
written out. -/
structure Copy where
  literals : Nat
  length : Nat
  /-- 1 for the latest offset; 3 more than any other. -/
  offsetValue : Nat
  deriving Repr, DecidableEq, Inhabited

/-- How a table of places is entered: the number of bytes that count, the multiplier that mixes
them, and the logarithm of the table's size. -/
structure HashKind where
  bytes : UInt64
  multiplier : UInt64
  log : UInt64

/-- Hashes of eight bytes. -/
def HashKind.long (log : Nat) : HashKind := ⟨8, 0xCF1BBCDCB7A56463, log.toUInt64⟩

/-- Hashes of four or five bytes. -/
def HashKind.short (bytes log : Nat) : HashKind :=
  if bytes = 4 then ⟨4, 2654435761, log.toUInt64⟩ else ⟨5, 889523592379, log.toUInt64⟩

/-- The two tables: for each hash, one more than the last place; 0 is none. -/
structure Places where
  long : Array Nat
  short : Array Nat

/-- The bytes that matches may reach, and where they were seen last. -/
structure MatchFinder where
  history : ByteArray
  longHash : HashKind
  shortHash : HashKind
  places : Places
  /-- The two latest offsets. -/
  recent : Nat × Nat
  /-- How far back the content of a frame may be reached. -/
  window : Nat
  /-- How many bytes at the front of the history belong to the dictionary. -/
  dictionarySize : Nat

namespace MatchFinder

/-! ## Bytes and hashes -/

/-- Byte `i` of an array, and 0 behind its end. -/
def byte (b : ByteArray) (i : Nat) : UInt8 := if h : i < b.size then b[i] else 0

/-- The four bytes at `i` as a number. -/
def word4 (b : ByteArray) (i : Nat) : UInt64 :=
  (byte b i).toUInt64 ||| ((byte b (i + 1)).toUInt64 <<< 8) |||
    ((byte b (i + 2)).toUInt64 <<< 16) ||| ((byte b (i + 3)).toUInt64 <<< 24)

/-- The eight bytes at `i` as a number. -/
def word8 (b : ByteArray) (i : Nat) : UInt64 := word4 b i ||| (word4 b (i + 4) <<< 32)

/-- The hash of the bytes at `i`. -/
def hash (k : HashKind) (b : ByteArray) (i : Nat) : Nat :=
  (((word8 b i <<< (64 - 8 * k.bytes)) * k.multiplier) >>> (64 - k.log)).toNat

/-- How many bytes from `i` on equal those from `j` on, `count` being known and at most `n` more. -/
def common (b : ByteArray) (i j : Nat) : (n : Nat) → (count : Nat) → Nat
  | 0, count => count
  | n + 1, count =>
    if byte b (i + count) = byte b (j + count) then common b i j n (count + 1) else count

/-- How many bytes before `i` equal those before `j`, at most `n`. -/
def commonBefore (b : ByteArray) (i j : Nat) : (n : Nat) → (count : Nat) → Nat
  | 0, count => count
  | n + 1, count =>
    if byte b (i - count - 1) = byte b (j - count - 1) then commonBefore b i j n (count + 1)
    else count

/-! ## One match -/

/-- A block, and what matches in it may reach. -/
structure Field where
  bytes : ByteArray
  longHash : HashKind
  shortHash : HashKind
  /-- The first place that a match may begin at. -/
  low : Nat
  /-- The end of the block. -/
  stop : Nat

/-- The last place of the block that is looked at: eight bytes begin there. -/
def Field.limit (f : Field) : Nat := f.stop - 8

/-- A match that was found on the way from `place`. -/
structure Hit where
  place : Nat
  start : Nat
  length : Nat
  offset : Nat
  /-- Whether the offset is the latest one. -/
  isLatest : Bool

/-- Whether a table's entry is a place that a match may begin at. -/
def Field.holds (f : Field) (entry : Nat) : Bool := decide (entry ≠ 0 ∧ f.low < entry)

/-- How long the bytes from `i` on in the block equal those from `j` on; `known` of them do. -/
def Field.length (f : Field) (i j known : Nat) : Nat :=
  common f.bytes i j (f.stop - i - known) known

/-- The match between `i` and `j`, whose first `known` bytes are the same, made longer at both
ends. -/
def Field.extend (f : Field) (anchor place i j known : Nat) : Hit :=
  let length := f.length i j known
  let before := commonBefore f.bytes i j (min (i - anchor) (j - f.low)) 0
  ⟨place, i - before, length + before, i - j, false⟩

/-- The match at `i` for a place `j` with the same four bytes; or the one right behind, for the
place that `entry` is, if it is longer. -/
def Field.longer (f : Field) (anchor i j ahead entry : Nat) : Hit :=
  let length := f.length i j 4
  let k := entry - 1
  if f.low + 1 < entry ∧ word8 f.bytes k = word8 f.bytes ahead ∧
      length < f.length ahead k 8 then
    f.extend anchor i ahead k 8
  else f.extend anchor i i j length

/-- Goes on from place `i`, whose long hash is `key` and was entered as `entry` before, to the
next match; `latest` is the latest offset, 0 for none. The steps grow by one at `widen`. -/
def scan (f : Field) (latest anchor : Nat) :
    (fuel : Nat) → (i step widen key entry : Nat) → Places → Option Hit × Places
  | 0, _, _, _, _, _, places => (none, places)
  | fuel + 1, i, step, widen, key, entry, ⟨long, short⟩ =>
    let ahead := i + step
    if f.limit < ahead then (none, ⟨long, short⟩)
    else
      let shortKey := hash f.shortHash f.bytes i
      let shortEntry := short.getD shortKey 0
      let long := long.setIfInBounds key (i + 1)
      let short := short.setIfInBounds shortKey (i + 1)
      if latest ≠ 0 ∧ word4 f.bytes (i + 1 - latest) = word4 f.bytes (i + 1) then
        let length := f.length (i + 1) (i + 1 - latest) 4
        (some ⟨i, i + 1, length, latest, true⟩, ⟨long, short⟩)
      else
        let aheadKey := hash f.longHash f.bytes ahead
        let enterAhead (long : Array Nat) : Array Nat :=
          if step < 4 then long.setIfInBounds aheadKey (ahead + 1) else long
        if f.holds entry ∧ word8 f.bytes (entry - 1) = word8 f.bytes i then
          (some (f.extend anchor i i (entry - 1) 8), ⟨enterAhead long, short⟩)
        else
          let aheadEntry := long.getD aheadKey 0
          if f.holds shortEntry ∧ word4 f.bytes (shortEntry - 1) = word4 f.bytes i then
            (some (f.longer anchor i (shortEntry - 1) ahead aheadEntry),
              ⟨enterAhead long, short⟩)
          else if widen ≤ ahead then
            scan f latest anchor fuel ahead (step + 1) (widen + 256) aheadKey aheadEntry
              ⟨long, short⟩
          else scan f latest anchor fuel ahead step widen aheadKey aheadEntry ⟨long, short⟩

/-! ## All matches of a block -/

/-- What has been found in a block so far. -/
structure Progress where
  places : Places
  latest : Nat
  second : Nat
  /-- The bytes from here on are not part of a match. -/
  anchor : Nat
  found : Array Copy

/-- Enters the place `i` into both tables. -/
def enter (f : Field) (i : Nat) : Places → Places
  | ⟨long, short⟩ =>
    ⟨long.setIfInBounds (hash f.longHash f.bytes i) (i + 1),
      short.setIfInBounds (hash f.shortHash f.bytes i) (i + 1)⟩

/-- Enters some places around a match that ends at `i` and was found on the way from `place`. -/
def enterAround (f : Field) (place i : Nat) : Places → Places
  | ⟨long, short⟩ =>
    let first := place + 2
    let long := long.setIfInBounds (hash f.longHash f.bytes first) (first + 1)
    let long := long.setIfInBounds (hash f.longHash f.bytes (i - 2)) (i - 1)
    let short := short.setIfInBounds (hash f.shortHash f.bytes first) (first + 1)
    ⟨long, short.setIfInBounds (hash f.shortHash f.bytes (i - 1)) i⟩

/-- Takes matches at the second latest offset as long as one follows right behind the last match;
the two offsets change places each time. -/
def repeatMatches (f : Field) : (fuel : Nat) → Progress → Progress
  | 0, p => p
  | fuel + 1, ⟨places, latest, second, i, found⟩ =>
    if i ≤ f.limit ∧ second ≠ 0 ∧ word4 f.bytes i = word4 f.bytes (i - second) then
      let length := f.length i (i - second) 4
      repeatMatches f fuel
        ⟨enter f i places, second, latest, i + length, found.push ⟨0, length, 1⟩⟩
    else ⟨places, latest, second, i, found⟩

/-- The progress behind a match. -/
def Progress.take (f : Field) (h : Hit) : Progress → Progress
  | ⟨places, latest, second, anchor, found⟩ =>
    let stop := h.start + h.length
    let copy : Copy := ⟨h.start - anchor, h.length, if h.isLatest then 1 else h.offset + 3⟩
    let found := found.push copy
    let second := if h.isLatest then second else latest
    if stop ≤ f.limit then
      repeatMatches f (f.stop - stop)
        ⟨enterAround f h.place stop places, h.offset, second, stop, found⟩
    else ⟨places, h.offset, second, stop, found⟩

/-- Goes through the block from `i` on. -/
def search (f : Field) : (fuel : Nat) → (i : Nat) → Progress → Progress
  | 0, _, p => p
  | fuel + 1, i, ⟨⟨long, short⟩, latest, second, anchor, found⟩ =>
    if f.limit < i + 1 then ⟨⟨long, short⟩, latest, second, anchor, found⟩
    else
      let key := hash f.longHash f.bytes i
      let entry := long.getD key 0
      match scan f latest anchor (f.stop - i) i 1 (i + 256) key entry ⟨long, short⟩ with
      | (none, places) => ⟨places, latest, second, anchor, found⟩
      | (some h, places) =>
        let p := Progress.take f h ⟨places, latest, second, anchor, found⟩
        search f fuel p.anchor p

/-! ## The finder -/

/-- Enters the places from `i` on, `n` of them. -/
def enterAll (f : Field) (i : Nat) : (n : Nat) → Places → Places
  | 0, places => places
  | n + 1, places => enterAll f (i + 1) n (enter f i places)

/-- Tables without places. -/
def emptyPlaces (longHash shortHash : HashKind) : Places :=
  ⟨Array.replicate (2 ^ longHash.log.toNat) 0, Array.replicate (2 ^ shortHash.log.toNat) 0⟩

/-- A finder over the content of a dictionary. -/
def create (longHash shortHash : HashKind) (window : Nat) (recent : Nat × Nat)
    (dictionary : ByteArray) : MatchFinder :=
  let f : Field := ⟨dictionary, longHash, shortHash, 0, dictionary.size⟩
  let places := enterAll f 0 (dictionary.size - 7) (emptyPlaces longHash shortHash)
  ⟨dictionary, longHash, shortHash, places, recent, window, dictionary.size⟩

/-- The finder without what no match may reach, once that is much. -/
def trim : MatchFinder → MatchFinder
  | ⟨history, longHash, shortHash, places, recent, window, dictionarySize⟩ =>
    if 2 * window + 2 ^ 20 < history.size - dictionarySize then
      ⟨history.extract (history.size - window) history.size, longHash, shortHash,
        emptyPlaces longHash shortHash, recent, window, 0⟩
    else ⟨history, longHash, shortHash, places, recent, window, dictionarySize⟩

/-- The copies in a block, and the finder behind it. An offset that reaches in front of everything
is set aside for the block. -/
def block (finder : MatchFinder) (content : Slice) : Array Copy × MatchFinder :=
  match finder.trim with
  | ⟨history, longHash, shortHash, places, recent, window, dictionarySize⟩ =>
    let start := history.size
    let history := content.appendTo history
    let stop := history.size
    let reachable (place : Nat) : Nat :=
      if place - dictionarySize ≤ window then 0 else place - window
    let low := reachable stop
    let i := if start = low then start + 1 else start
    let depth := i - reachable i
    let latest := if depth < recent.1 then 0 else recent.1
    let second := if depth < recent.2 then 0 else recent.2
    let f : Field := ⟨history, longHash, shortHash, low, stop⟩
    match search f content.size i ⟨places, latest, second, start, #[]⟩ with
    | ⟨places, latest', second', _, found⟩ =>
      let aside := if latest = 0 ∧ latest' ≠ 0 then recent.1 else recent.2
      let recent :=
        (if latest' = 0 then recent.1 else latest', if second' = 0 then aside else second')
      (found, ⟨history, longHash, shortHash, places, recent, window, dictionarySize⟩)

end MatchFinder

end Zstandard
