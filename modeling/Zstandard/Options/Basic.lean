import Zstandard.Dictionary.Basic
import Zstandard.Options.Parameter

/-!
# Options

What a caller may ask of a compressor or a decompressor. A field left out keeps the library's
default. `validate` compares each present parameter with its interval, in the order of
`Parameter.all`, and reports the first that is outside. `parameters` is the list the library is
told, with the values as 32-bit words.
-/

namespace Zstandard

/-- Whether codec steps exclude each other across the whole program. -/
inductive LockMode where
  | global
  | detached
  deriving Repr, DecidableEq, Inhabited

/-- The mode a flag asks for. -/
def LockMode.ofFlag (useGlobalLock : Bool) : LockMode :=
  if useGlobalLock then .global else .detached

/-- What a compressor is asked for. -/
structure CompressorOptions where
  compressionLevel : Option Int32 := none
  windowLog : Option UInt32 := none
  hashLog : Option UInt32 := none
  chainLog : Option UInt32 := none
  searchLog : Option UInt32 := none
  minMatch : Option UInt32 := none
  targetLength : Option UInt32 := none
  strategy : Option Strategy := none
  enableLongDistanceMatching : Option Bool := none
  ldmHashLog : Option UInt32 := none
  ldmMinMatch : Option UInt32 := none
  ldmBucketSizeLog : Option UInt32 := none
  ldmHashRateLog : Option UInt32 := none
  contentSizeFlag : Option Bool := none
  checksumFlag : Option Bool := none
  dictIdFlag : Option Bool := none
  nbWorkers : Option UInt32 := none
  jobSize : Option UInt32 := none
  overlapLog : Option UInt32 := none
  /-- The size the source is promised to have. -/
  pledgedSize : Option UInt64 := none
  dictionary : Option Dictionary := none
  /-- 0 asks for the recommended size. -/
  sourceBufferLength : UInt64 := 0
  /-- 0 asks for the recommended size. -/
  destinationBufferLength : UInt64 := 0
  useGlobalLock : Bool := false
  deriving DecidableEq

/-- What a decompressor is asked for. -/
structure DecompressorOptions where
  /-- The largest window that is accepted, as a power of 2. -/
  windowLogMax : Option UInt32 := none
  dictionary : Option Dictionary := none
  /-- 0 asks for the recommended size. -/
  sourceBufferLength : UInt64 := 0
  /-- 0 asks for the recommended size. -/
  destinationBufferLength : UInt64 := 0
  useGlobalLock : Bool := false
  deriving DecidableEq

/-- `length`, or the recommended one in place of 0. -/
def lengthOr (recommended : Nat) (length : UInt64) : Nat :=
  if length = 0 then recommended else length.toNat

namespace CompressorOptions

/-- The recommended length of a compressor's source buffer: the largest block. -/
def recommendedSource : Nat := 131072

/-- The recommended length of a compressor's destination buffer: the largest block made larger
by what stands around it. -/
def recommendedDestination : Nat := 131591

/-- The integer a parameter is set to, if it is. -/
def value? (o : CompressorOptions) : Parameter → Option Int
  | .compressionLevel => o.compressionLevel.map Int32.toInt
  | .windowLog => o.windowLog.map (·.toNat)
  | .hashLog => o.hashLog.map (·.toNat)
  | .chainLog => o.chainLog.map (·.toNat)
  | .searchLog => o.searchLog.map (·.toNat)
  | .minMatch => o.minMatch.map (·.toNat)
  | .targetLength => o.targetLength.map (·.toNat)
  | .strategy => o.strategy.map (·.number)
  | .enableLongDistanceMatching => o.enableLongDistanceMatching.map (·.toNat)
  | .ldmHashLog => o.ldmHashLog.map (·.toNat)
  | .ldmMinMatch => o.ldmMinMatch.map (·.toNat)
  | .ldmBucketSizeLog => o.ldmBucketSizeLog.map (·.toNat)
  | .ldmHashRateLog => o.ldmHashRateLog.map (·.toNat)
  | .contentSizeFlag => o.contentSizeFlag.map (·.toNat)
  | .checksumFlag => o.checksumFlag.map (·.toNat)
  | .dictIdFlag => o.dictIdFlag.map (·.toNat)
  | .nbWorkers => o.nbWorkers.map (·.toNat)
  | .jobSize => o.jobSize.map (·.toNat)
  | .overlapLog => o.overlapLog.map (·.toNat)

/-- Why a parameter's value is not allowed, if it is not. -/
def problem? (limits : Limits) (o : CompressorOptions) (p : Parameter) : Option Error :=
  match o.value? p with
  | none => none
  | some v =>
    match limits.parameter p with
    | none => some .notImplemented
    | some i => if i.contains v then none else some (.validateFailed ("invalid " ++ p.phrase))

/-- Checks each present parameter; the first that is not allowed is the error. -/
def validateWith (limits : Limits) (o : CompressorOptions) : Except Error Unit :=
  match Parameter.all.findSome? (o.problem? limits) with
  | some e => .error e
  | none => .ok ()

/-- Checks each present parameter against the linked version. -/
def validate (o : CompressorOptions) : Except Error Unit := o.validateWith Limits.library

/-- The parameters the library is told, in the order of `Parameter.all`, as 32-bit words. -/
def parameters (o : CompressorOptions) : List (Parameter × Int32) :=
  Parameter.all.filterMap fun p => (o.value? p).map fun v => (p, Int32.ofInt v)

/-- The options with `size` for the pledged size, if none is pledged. -/
def orPledge (o : CompressorOptions) (size : Nat) : CompressorOptions :=
  { o with pledgedSize := some (o.pledgedSize.getD size.toUInt64) }

/-- Whether steps take the lock of the whole program. -/
def lockMode (o : CompressorOptions) : LockMode := .ofFlag o.useGlobalLock

/-- The length of the source buffer. -/
def sourceLength (o : CompressorOptions) : Nat := lengthOr recommendedSource o.sourceBufferLength

/-- The length of the destination buffer. -/
def destinationLength (o : CompressorOptions) : Nat :=
  lengthOr recommendedDestination o.destinationBufferLength

end CompressorOptions

namespace DecompressorOptions

/-- The recommended length of a decompressor's source buffer: the largest block and the header
of the next. -/
def recommendedSource : Nat := 131075

/-- The recommended length of a decompressor's destination buffer: the largest block. -/
def recommendedDestination : Nat := 131072

/-- Checks the window limit. -/
def validateWith (limits : Limits) (o : DecompressorOptions) : Except Error Unit :=
  match o.windowLogMax with
  | none => .ok ()
  | some v =>
    match limits.windowLogMax with
    | none => .error .notImplemented
    | some i =>
      if i.contains v.toNat then .ok () else .error (.validateFailed "invalid window log max")

/-- Checks the window limit against the linked version. -/
def validate (o : DecompressorOptions) : Except Error Unit := o.validateWith Limits.library

/-- The window limit as the library is told it, a 32-bit word. -/
def windowLogWord (o : DecompressorOptions) : Option Int32 :=
  o.windowLogMax.map fun v => Int32.ofInt v.toNat

/-- Whether steps take the lock of the whole program. -/
def lockMode (o : DecompressorOptions) : LockMode := .ofFlag o.useGlobalLock

/-- The length of the source buffer. -/
def sourceLength (o : DecompressorOptions) : Nat :=
  lengthOr recommendedSource o.sourceBufferLength

/-- The length of the destination buffer. -/
def destinationLength (o : DecompressorOptions) : Nat :=
  lengthOr recommendedDestination o.destinationBufferLength

end DecompressorOptions

end Zstandard
