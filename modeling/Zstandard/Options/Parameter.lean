import Zstandard.Error.Code
import Zstandard.Options.Strategy

/-!
# Parameters of the format library

A parameter is what the format library is told before a frame is made. Each has a phrase for
error texts, the symbol the library lists it under, and an interval of allowed values. The
intervals are a value, `Limits`, so that what is said of options holds whatever they are;
`Limits.library` are those of the linked version.

The library's own setter is more lenient than the interval: 0 stands for its default, a level is
moved into its bounds, flags are truth values, and a build without threads refuses only non-zero
thread settings (`Parameter.refusal?`).
-/

namespace Zstandard

/-- A closed interval of integers. -/
structure Interval where
  lower : Int
  upper : Int
  deriving Repr, DecidableEq

/-- Whether the interval holds `v`. -/
def Interval.contains (i : Interval) (v : Int) : Bool := decide (i.lower ≤ v ∧ v ≤ i.upper)

/-- The parameters of compression, in the order they are applied. -/
inductive Parameter where
  | compressionLevel | windowLog | hashLog | chainLog | searchLog | minMatch | targetLength
  | strategy | enableLongDistanceMatching | ldmHashLog | ldmMinMatch | ldmBucketSizeLog
  | ldmHashRateLog | contentSizeFlag | checksumFlag | dictIdFlag | nbWorkers | jobSize
  | overlapLog
  deriving Repr, DecidableEq, Inhabited

namespace Parameter

/-- Every parameter, in the order they are applied. -/
def all : List Parameter :=
  [.compressionLevel, .windowLog, .hashLog, .chainLog, .searchLog, .minMatch, .targetLength,
   .strategy, .enableLongDistanceMatching, .ldmHashLog, .ldmMinMatch, .ldmBucketSizeLog,
   .ldmHashRateLog, .contentSizeFlag, .checksumFlag, .dictIdFlag, .nbWorkers, .jobSize,
   .overlapLog]

/-- The phrase for a parameter in an error text. -/
def phrase : Parameter → String
  | .compressionLevel => "compression level"
  | .windowLog => "window log"
  | .hashLog => "hash log"
  | .chainLog => "chain log"
  | .searchLog => "search log"
  | .minMatch => "min match"
  | .targetLength => "target length"
  | .strategy => "strategy"
  | .enableLongDistanceMatching => "long distance matching flag"
  | .ldmHashLog => "ldm hash log"
  | .ldmMinMatch => "ldm min match"
  | .ldmBucketSizeLog => "ldm bucket size log"
  | .ldmHashRateLog => "ldm hash rate log"
  | .contentSizeFlag => "content size flag"
  | .checksumFlag => "checksum flag"
  | .dictIdFlag => "dict id flag"
  | .nbWorkers => "nb workers"
  | .jobSize => "job size"
  | .overlapLog => "overlap log"

/-- The symbol the library lists a parameter under. -/
def symbol : Parameter → String
  | .compressionLevel => "ZSTD_c_compressionLevel"
  | .windowLog => "ZSTD_c_windowLog"
  | .hashLog => "ZSTD_c_hashLog"
  | .chainLog => "ZSTD_c_chainLog"
  | .searchLog => "ZSTD_c_searchLog"
  | .minMatch => "ZSTD_c_minMatch"
  | .targetLength => "ZSTD_c_targetLength"
  | .strategy => "ZSTD_c_strategy"
  | .enableLongDistanceMatching => "ZSTD_c_enableLongDistanceMatching"
  | .ldmHashLog => "ZSTD_c_ldmHashLog"
  | .ldmMinMatch => "ZSTD_c_ldmMinMatch"
  | .ldmBucketSizeLog => "ZSTD_c_ldmBucketSizeLog"
  | .ldmHashRateLog => "ZSTD_c_ldmHashRateLog"
  | .contentSizeFlag => "ZSTD_c_contentSizeFlag"
  | .checksumFlag => "ZSTD_c_checksumFlag"
  | .dictIdFlag => "ZSTD_c_dictIDFlag"
  | .nbWorkers => "ZSTD_c_nbWorkers"
  | .jobSize => "ZSTD_c_jobSize"
  | .overlapLog => "ZSTD_c_overlapLog"

/-- The values the linked version allows. -/
def interval : Parameter → Interval
  | .compressionLevel => ⟨-131072, 22⟩
  | .windowLog => ⟨10, 31⟩
  | .hashLog => ⟨6, 30⟩
  | .chainLog => ⟨6, 30⟩
  | .searchLog => ⟨1, 30⟩
  | .minMatch => ⟨3, 7⟩
  | .targetLength => ⟨0, 131072⟩
  | .strategy => ⟨1, 9⟩
  | .enableLongDistanceMatching => ⟨0, 2⟩
  | .ldmHashLog => ⟨6, 30⟩
  | .ldmMinMatch => ⟨4, 4096⟩
  | .ldmBucketSizeLog => ⟨1, 8⟩
  | .ldmHashRateLog => ⟨0, 25⟩
  | .contentSizeFlag => ⟨0, 1⟩
  | .checksumFlag => ⟨0, 1⟩
  | .dictIdFlag => ⟨0, 1⟩
  | .nbWorkers => ⟨0, 0⟩
  | .jobSize => ⟨0, 0⟩
  | .overlapLog => ⟨0, 0⟩

/-- Why the library's setter refuses a value, if it does. -/
def refusal? (p : Parameter) (value : Int) : Option ErrorCode :=
  match p with
  | .compressionLevel | .contentSizeFlag | .checksumFlag | .dictIdFlag => none
  | .nbWorkers | .jobSize | .overlapLog =>
    if value = 0 then none else some .parameterUnsupported
  | _ => if value = 0 ∨ p.interval.contains value then none else some .parameterOutOfBound

end Parameter

/-- The intervals that options are checked against; a parameter without one is not supported. -/
structure Limits where
  parameter : Parameter → Option Interval
  windowLogMax : Option Interval

namespace Limits

/-- The intervals of the linked version. -/
def library : Limits := ⟨fun p => some p.interval, some ⟨10, 31⟩⟩

/-- The compression levels of the linked version. -/
def levels : Interval := Parameter.interval .compressionLevel

end Limits

end Zstandard
