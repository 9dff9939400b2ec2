import Zstandard.Options.Basic
import Zstandard.Report.Basic

/-!
# Setting up a codec from options

A codec is set up by telling it the parameters, in order, and then giving it its dictionary.
Each parameter is reported before it is set, so the log ends with the one that was refused, if
one was. How the codec itself comes into being is an argument: what is said of drivers holds for
any codec.
-/

namespace Zstandard

/-- Tells the library the parameters one by one; the first it refuses is the error. -/
def applyParameters : List (Parameter × Int32) → Log → Except Error Unit × Log
  | [], log => (.ok (), log)
  | (p, v) :: rest, log =>
    let log := log.push (.compressorParameter p v)
    match p.refusal? v.toInt with
    | some code => (.error code.toError, log)
    | none => applyParameters rest log

/-- Tells the library the window limit; 0 stands for the default. -/
def applyWindowLog : Option Int32 → Log → Except Error Unit × Log
  | none, log => (.ok (), log)
  | some v, log =>
    let log := log.push (.windowLogMax v)
    if v = 0 ∨ (Interval.mk 10 31).contains v.toInt then (.ok (), log)
    else (.error ErrorCode.parameterOutOfBound.toError, log)

/-- A compressing codec, set up by `create` once its parameters are accepted. -/
def CompressorOptions.setUp {κ : Type} (create : CompressorOptions → Except Error κ)
    (o : CompressorOptions) (log : Log) : Except Error κ × Log :=
  match applyParameters o.parameters log with
  | (.error e, log) => (.error e, log)
  | (.ok (), log) => (create o, log)

/-- A decompressing codec, set up by `create` once its window limit is accepted. -/
def DecompressorOptions.setUp {κ : Type} (create : DecompressorOptions → Except Error κ)
    (o : DecompressorOptions) (log : Log) : Except Error κ × Log :=
  match applyWindowLog o.windowLogWord log with
  | (.error e, log) => (.error e, log)
  | (.ok (), log) => (create o, log)

end Zstandard
