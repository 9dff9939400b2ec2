import Zstandard.Error.Basic

/-!
# Error codes of the format library

The routines on frames and dictionaries fail with a number. `ErrorCode.description` is the
library's text for it and `ErrorCode.toError` sorts it into the errors of this library: memory,
parameters and sizes the caller chose, a damaged source, a damaged dictionary, and the rest.
A result word holds a size or, in its top 119 values, the negated number of an error (`check`).
-/

namespace Zstandard

/-- The number of an error of the format library. -/
structure ErrorCode where
  number : Nat
  deriving Repr, DecidableEq, Inhabited

namespace ErrorCode

/-- The first bytes belong to no kind of frame. -/
def magicUnknown : ErrorCode := ⟨10⟩
/-- The frame header asks for a feature that does not exist. -/
def frameParameterUnsupported : ErrorCode := ⟨14⟩
/-- The window is larger than the limit. -/
def windowTooLarge : ErrorCode := ⟨16⟩
/-- The data contradicts the format. -/
def corruptionDetected : ErrorCode := ⟨20⟩
/-- The content differs from its checksum. -/
def checksumWrong : ErrorCode := ⟨22⟩
/-- The header of the literals contradicts the format. -/
def literalsHeaderWrong : ErrorCode := ⟨24⟩
/-- The dictionary contradicts the format, or one is needed and missing. -/
def dictionaryCorrupted : ErrorCode := ⟨30⟩
/-- The frame was made with another dictionary. -/
def dictionaryWrong : ErrorCode := ⟨32⟩
/-- The parameter exists in no build of this kind. -/
def parameterUnsupported : ErrorCode := ⟨40⟩
/-- The parameter's value is outside its bounds. -/
def parameterOutOfBound : ErrorCode := ⟨42⟩
/-- The operation cannot follow what was done before. -/
def stageWrong : ErrorCode := ⟨60⟩
/-- Memory cannot be had. -/
def memoryAllocation : ErrorCode := ⟨64⟩
/-- The output does not fit. -/
def destinationTooSmall : ErrorCode := ⟨70⟩
/-- The source is longer or shorter than it has to be. -/
def sourceSizeWrong : ErrorCode := ⟨72⟩
/-- Steps without progress, into an output without room. -/
def stuckWithoutRoom : ErrorCode := ⟨80⟩
/-- Steps without progress, from an input without bytes. -/
def stuckWithoutInput : ErrorCode := ⟨82⟩

/-- The library's text for a code. -/
def description (c : ErrorCode) : String :=
  match c.number with
  | 0 => "No error detected"
  | 1 => "Error (generic)"
  | 10 => "Unknown frame descriptor"
  | 12 => "Version not supported"
  | 14 => "Unsupported frame parameter"
  | 16 => "Frame requires too much memory for decoding"
  | 20 => "Data corruption detected"
  | 22 => "Restored data doesn't match checksum"
  | 24 => "Header of Literals' block doesn't respect format specification"
  | 30 => "Dictionary is corrupted"
  | 32 => "Dictionary mismatch"
  | 34 => "Cannot create Dictionary from provided samples"
  | 40 => "Unsupported parameter"
  | 41 => "Unsupported combination of parameters"
  | 42 => "Parameter is out of bound"
  | 44 => "tableLog requires too much memory : unsupported"
  | 46 => "Unsupported max Symbol Value : too large"
  | 48 => "Specified maxSymbolValue is too small"
  | 49 => "This mode cannot generate an uncompressed block"
  | 50 => "pledged buffer stability condition is not respected"
  | 60 => "Operation not authorized at current processing stage"
  | 62 => "Context should be init first"
  | 64 => "Allocation error : not enough memory"
  | 66 => "workSpace buffer is not large enough"
  | 70 => "Destination buffer is too small"
  | 72 => "Src size is incorrect"
  | 74 => "Operation on NULL destination buffer"
  | 80 => "Operation made no progress over multiple calls, due to output buffer being full"
  | 82 => "Operation made no progress over multiple calls, due to input being empty"
  | 100 => "Frame index is too large"
  | 102 => "An I/O error occurred when reading/seeking"
  | 104 => "Destination buffer is wrong"
  | 105 => "Source buffer is wrong"
  | 106 => "Block-level external sequence producer returned an error code"
  | 107 => "External sequences are not valid"
  | _ => "Unspecified error code"

/-- The error a code stands for. -/
def toError (c : ErrorCode) : Error :=
  if c = memoryAllocation then .allocateFailed
  else if c.number ∈ [40, 41, 42, 44, 46, 48, 66, 70, 72, 74] then .validateFailed c.description
  else if c.number ∈ [10, 12, 14, 16, 20, 22, 24] then .corruptedSource
  else if c.number ∈ [30, 32] then .corruptedDictionary
  else .unexpected c.description

/-- The code that a result word holds, if it holds one. -/
def ofResult? (result : UInt64) : Option ErrorCode :=
  if (0 - 120 : UInt64) < result then some ⟨(0 - result).toNat⟩ else none

/-- The size in a result word, or the error it stands for. -/
def check (result : UInt64) : Except Error UInt64 :=
  match ofResult? result with
  | some code => .error code.toError
  | none => .ok result

end ErrorCode

end Zstandard
