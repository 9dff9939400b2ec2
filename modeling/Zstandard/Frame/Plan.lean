import Zstandard.Block.Matches
import Zstandard.Frame.Header
import Zstandard.Options.Basic

/-!
# Planning a frame

Before a frame is begun, options and the size of the source, if it is known, decide on its
window, its blocks and its header. A window is no larger than it has to be for a source of known
size. A dictionary counts as a part of the source if it is copied before it; before a small source
or one of unknown size it is only attached. A frame that records its content size and fits its
window is a single segment and records no window.
-/

namespace Zstandard

/-- What is decided about a frame before it is begun. -/
structure FramePlan where
  windowLog : Nat
  /-- The size of the source, if it is known. -/
  sourceSize : Option Nat
  recordsSize : Bool
  hasChecksum : Bool
  /-- 0 is none. -/
  dictionaryId : Nat
  deriving Repr, DecidableEq

namespace FramePlan

/-- Sources by their size. The settings of a level differ between them. -/
inductive SourceClass where
  | upTo16K
  | upTo128K
  | upTo256K
  | large
  deriving Repr, DecidableEq

/-- The class of a source; one of unknown size is large. -/
def SourceClass.of : Option Nat → SourceClass
  | none => .large
  | some size =>
    if size ≤ 16384 then .upTo16K
    else if size ≤ 131072 then .upTo128K
    else if size ≤ 262144 then .upTo256K
    else .large

/-- The window logarithms of the levels from 1 on, for large sources. -/
def levelWindows : List Nat :=
  [19, 20, 21, 21, 21, 21, 21, 21, 22, 22, 22, 22, 22, 22, 22, 22, 23, 23, 23, 25, 26, 27]

/-- The window logarithm a level has for a source. -/
def windowLogFor (level : Int) : SourceClass → Nat
  | .upTo16K => 14
  | .upTo128K => 17
  | .upTo256K => 18
  | .large => if level < 1 then 19 else levelWindows.getD (level - 1).toNat 27

/-- The least logarithm of a power of 2 that is at least `n`. -/
def ceilLog (n : Nat) : Nat := if n ≤ 1 then 0 else (n - 1).log2 + 1

/-- No logarithm is fitted to a source that is larger than this. -/
def fitLimit : Nat := 2 ^ 30

/-- A logarithm made as small as a source of this size allows, with `before` bytes before it. -/
def fitLog (log : Nat) (sourceSize : Option Nat) (before : Nat) : Nat :=
  match sourceSize with
  | none => log
  | some size => if fitLimit < size then log else min log (max 6 (ceilLog (size + before)))

/-- The level that options ask for; 0 asks for the default. -/
def levelOf (o : CompressorOptions) : Int :=
  match o.compressionLevel with
  | none => 3
  | some level => if level = 0 then 3 else max (-131072) (min 22 level.toInt)

/-- The strategy of a level, as far as it matters for dictionaries: weaker levels are fast, and
stronger ones than those named here go on with the strategy named. -/
def strategyFor (level : Int) (c : SourceClass) : Strategy :=
  let (dfast, greedy, btultra) : Int × Int × Int := match c with
    | .upTo16K => (3, 4, 13)
    | .upTo128K => (3, 5, 16)
    | .upTo256K => (2, 4, 16)
    | .large => (3, 5, 18)
  if level < dfast then .fast
  else if level < greedy then .dfast
  else if level < btultra then .greedy
  else .btultra

/-- The size of the source that a dictionary's level settings are chosen for. -/
def usualSize : Nat := 499

/-- The strategy a dictionary of this size is made ready for. -/
def dictionaryStrategy (o : CompressorOptions) (dictionarySize : Nat) : Strategy :=
  o.strategy.getD (strategyFor (levelOf o) (.of (some (dictionarySize + usualSize))))

/-- The largest source that a dictionary is attached to; it is copied before a larger one. -/
def attachLimit : Strategy → Nat
  | .fast | .btultra | .btultra2 => 8192
  | .dfast => 16384
  | .greedy | .lazy | .lazy2 | .btlazy2 | .btopt => 32768

/-- How many bytes of a dictionary are copied before the source. -/
def copiedSize (o : CompressorOptions) (dictionarySize : Nat) (sourceSize : Option Nat) : Nat :=
  match sourceSize with
  | none => 0
  | some size =>
    if size ≤ attachLimit (dictionaryStrategy o dictionarySize) then 0 else dictionarySize

/-- The window logarithm that options ask for, before it is fitted to the source. A size is a word
of 64 bits. -/
def askedWindow (o : CompressorOptions) (sourceSize : Option Nat) (before : Nat) : Nat :=
  let wanted := o.windowLog.getD 0
  if wanted ≠ 0 then wanted.toNat
  else if o.enableLongDistanceMatching = some true then 27
  else windowLogFor (levelOf o) (.of (sourceSize.map fun size => (size + before) % 2 ^ 64))

/-- The plan for a frame with a dictionary of this size; a size of 0 is none. -/
def make (o : CompressorOptions) (dictionaryId dictionarySize : Nat) (sourceSize : Option Nat) :
    FramePlan :=
  let before := copiedSize o dictionarySize sourceSize
  { windowLog := max 10 (fitLog (askedWindow o sourceSize before) sourceSize before)
    sourceSize
    recordsSize := sourceSize.isSome && o.contentSizeFlag.getD true
    hasChecksum := o.checksumFlag.getD false
    dictionaryId := if o.dictIdFlag.getD true then dictionaryId else 0 }

/-- How far back matches may reach. -/
def window (p : FramePlan) : Nat :=
  match p.sourceSize with
  | none => 2 ^ p.windowLog
  | some size => min (2 ^ p.windowLog) (max 1 size)

/-- The size of a source that is expected behind a dictionary if it is unknown. -/
def expectedSize : Nat := 513

/-- How much has to be entered into the tables that find matches, if it is known. -/
def searchSize (p : FramePlan) (dictionarySize : Nat) : Option Nat :=
  match p.sourceSize with
  | some size => some (size + dictionarySize)
  | none => if dictionarySize = 0 then none else some (expectedSize + dictionarySize)

/-- The hashes of eight bytes and of a few bytes that find matches. If it is known how much has to
be entered, the tables are no larger than that takes. -/
def hashKinds (p : FramePlan) (dictionarySize : Nat) : HashKind × HashKind :=
  match p.searchSize dictionarySize with
  | none => (.long 17, .short 5 16)
  | some size =>
    let (bytes, short, long) :=
      if size ≤ 16384 then (4, 14, 15)
      else if size ≤ 131072 then (5, 15, 16)
      else if size ≤ 262144 then (4, 16, 16)
      else (5, 16, 17)
    let log := max (fitLog p.windowLog p.sourceSize 0) (fitLog 17 (some dictionarySize) 0)
    (.long (min long (log + 1)), .short bytes (min short log))

/-- The size of the frame's blocks. -/
def blockSize (p : FramePlan) : Nat := min blockLimit p.window

/-- The content size that the header records. -/
def recordedSize (p : FramePlan) : Option Nat := if p.recordsSize then p.sourceSize else none

/-- Whether the frame is a single segment. -/
def isSingle (p : FramePlan) : Bool :=
  match p.recordedSize with
  | none => false
  | some size => decide (size ≤ 2 ^ p.windowLog)

/-- The frame header. -/
def header (p : FramePlan) : ByteArray :=
  let idSize := if p.dictionaryId = 0 then 0 else if p.dictionaryId < 256 then 1
    else if p.dictionaryId < 65536 then 2 else 3
  let sizeField := match p.recordedSize with
    | none => 0
    | some size =>
      if size < 256 then 0 else if size < 65792 then 1 else if size < 4294967295 then 2 else 3
  let descriptor := idSize + (if p.hasChecksum then 4 else 0) + (if p.isSingle then 32 else 0)
    + sizeField * 64
  let out := pushLittleEndian .empty frameMagic 4
  let out := pushLittleEndian out descriptor 1
  let out := if p.isSingle then out else pushLittleEndian out ((p.windowLog - 10) * 8) 1
  let out := pushLittleEndian out p.dictionaryId (if idSize = 3 then 4 else idSize)
  match p.recordedSize with
  | none => out
  | some size =>
    match sizeField with
    | 0 => if p.isSingle then pushLittleEndian out size 1 else out
    | 1 => pushLittleEndian out (size - 256) 2
    | 2 => pushLittleEndian out size 4
    | _ => pushLittleEndian out size 8

end FramePlan

end Zstandard
