import Zstandard.Options.Basic

/-!
# Options from a map

A map gives values to keys; a key it gives twice keeps the first. Options are resolved from it
field by field, in a fixed order, and the first field whose value does not fit is the error; the
bounds are checked after that. Keys that no field has are not looked at.
-/

namespace Zstandard

/-- A value in a map of options. -/
inductive OptionValue where
  | bool (value : Bool)
  | integer (value : Int64)
  | symbol (value : String)
  | dictionary (value : Dictionary)

/-- Values under names. -/
abbrev OptionMap := List (String × OptionValue)

namespace OptionMap

/-- The value under a key. -/
def get? (m : OptionMap) (key : String) : Option OptionValue := m.lookup key

/-- The truth value under a key. -/
def bool? (m : OptionMap) (key : String) : Except Error (Option Bool) :=
  match m.get? key with
  | none => .ok none
  | some (.bool v) => .ok (some v)
  | some _ => .error (.validateFailed ("invalid bool: " ++ key))

/-- The integer under a key. -/
def integer? (m : OptionMap) (key : String) : Except Error (Option Int) :=
  match m.get? key with
  | none => .ok none
  | some (.integer v) => .ok (some v.toInt)
  | some _ => .error (.validateFailed ("invalid integer: " ++ key))

/-- The integer under a key, which has to fit 32 bits with a sign. -/
def int32? (m : OptionMap) (key : String) : Except Error (Option Int32) :=
  match m.integer? key with
  | .error e => .error e
  | .ok none => .ok none
  | .ok (some v) =>
    if -2147483648 ≤ v ∧ v ≤ 2147483647 then .ok (some (Int32.ofInt v))
    else .error (.validateFailed ("invalid " ++ key))

/-- The integer under a key, which has to be at least 0. -/
def natural? (m : OptionMap) (key : String) : Except Error (Option Nat) :=
  match m.integer? key with
  | .error e => .error e
  | .ok none => .ok none
  | .ok (some v) =>
    if 0 ≤ v then .ok (some v.toNat)
    else .error (.validateFailed ("invalid not negative integer: " ++ key))

/-- The integer under a key, which has to fit 32 bits without a sign. -/
def word32? (m : OptionMap) (key : String) : Except Error (Option UInt32) :=
  match m.natural? key with
  | .error e => .error e
  | .ok none => .ok none
  | .ok (some v) =>
    if v < 4294967296 then .ok (some v.toUInt32) else .error (.validateFailed ("invalid " ++ key))

/-- The integer under a key, which has to be at least 0, as a 64-bit word. -/
def word64? (m : OptionMap) (key : String) : Except Error (Option UInt64) :=
  match m.natural? key with
  | .error e => .error e
  | .ok v => .ok (v.map Nat.toUInt64)

/-- The length under a key, 0 if there is none. -/
def length (m : OptionMap) (key : String) : Except Error UInt64 :=
  match m.word64? key with
  | .error e => .error e
  | .ok v => .ok (v.getD 0)

/-- The symbol under a key. -/
def symbol? (m : OptionMap) (key : String) : Except Error (Option String) :=
  match m.get? key with
  | none => .ok none
  | some (.symbol v) => .ok (some v)
  | some _ => .error (.validateFailed ("invalid symbol: " ++ key))

/-- The strategy whose name is under a key. -/
def strategy? (m : OptionMap) (key : String) : Except Error (Option Strategy) :=
  match m.symbol? key with
  | .error e => .error e
  | .ok none => .ok none
  | .ok (some name) =>
    match Strategy.ofName? name with
    | .error e => .error e
    | .ok s => .ok (some s)

/-- The dictionary under a key. -/
def dictionary? (m : OptionMap) (key : String) : Except Error (Option Dictionary) :=
  match m.get? key with
  | none => .ok none
  | some (.dictionary v) => .ok (some v)
  | some _ => .error (.validateFailed "invalid dictionary")

/-- The flag under a key, false if there is none. -/
def flag (m : OptionMap) (key : String) : Except Error Bool :=
  match m.bool? key with
  | .error e => .error e
  | .ok v => .ok (v.getD false)

end OptionMap

/-- The options a map describes, not yet checked against bounds. -/
def CompressorOptions.resolve (m : OptionMap) : Except Error CompressorOptions := do
  let compressionLevel ← m.int32? "compressionLevel"
  let windowLog ← m.word32? "windowLog"
  let hashLog ← m.word32? "hashLog"
  let chainLog ← m.word32? "chainLog"
  let searchLog ← m.word32? "searchLog"
  let minMatch ← m.word32? "minMatch"
  let targetLength ← m.word32? "targetLength"
  let strategy ← m.strategy? "strategy"
  let enableLongDistanceMatching ← m.bool? "enableLongDistanceMatching"
  let ldmHashLog ← m.word32? "ldmHashLog"
  let ldmMinMatch ← m.word32? "ldmMinMatch"
  let ldmBucketSizeLog ← m.word32? "ldmBucketSizeLog"
  let ldmHashRateLog ← m.word32? "ldmHashRateLog"
  let contentSizeFlag ← m.bool? "contentSizeFlag"
  let checksumFlag ← m.bool? "checksumFlag"
  let dictIdFlag ← m.bool? "dictIdFlag"
  let nbWorkers ← m.word32? "nbWorkers"
  let jobSize ← m.word32? "jobSize"
  let overlapLog ← m.word32? "overlapLog"
  let pledgedSize ← m.word64? "pledgedSize"
  let dictionary ← m.dictionary? "dictionary"
  let sourceBufferLength ← m.length "sourceBufferLength"
  let destinationBufferLength ← m.length "destinationBufferLength"
  let useGlobalLock ← m.flag "useGlobalLock"
  return {
    compressionLevel, windowLog, hashLog, chainLog, searchLog, minMatch, targetLength, strategy,
    enableLongDistanceMatching, ldmHashLog, ldmMinMatch, ldmBucketSizeLog, ldmHashRateLog,
    contentSizeFlag, checksumFlag, dictIdFlag, nbWorkers, jobSize, overlapLog, pledgedSize,
    dictionary, sourceBufferLength, destinationBufferLength, useGlobalLock }

/-- The checked options a map describes. -/
def CompressorOptions.ofMapWith (limits : Limits) (m : OptionMap) :
    Except Error CompressorOptions := do
  let o ← resolve m
  o.validateWith limits
  return o

/-- The options a map describes, checked against the linked version. -/
def CompressorOptions.ofMap (m : OptionMap) : Except Error CompressorOptions :=
  ofMapWith Limits.library m

/-- The options a map describes, not yet checked against bounds. -/
def DecompressorOptions.resolve (m : OptionMap) : Except Error DecompressorOptions := do
  let windowLogMax ← m.word32? "windowLogMax"
  let dictionary ← m.dictionary? "dictionary"
  let sourceBufferLength ← m.length "sourceBufferLength"
  let destinationBufferLength ← m.length "destinationBufferLength"
  let useGlobalLock ← m.flag "useGlobalLock"
  return { windowLogMax, dictionary, sourceBufferLength, destinationBufferLength, useGlobalLock }

/-- The checked options a map describes. -/
def DecompressorOptions.ofMapWith (limits : Limits) (m : OptionMap) :
    Except Error DecompressorOptions := do
  let o ← resolve m
  o.validateWith limits
  return o

/-- The options a map describes, checked against the linked version. -/
def DecompressorOptions.ofMap (m : OptionMap) : Except Error DecompressorOptions :=
  ofMapWith Limits.library m

end Zstandard
