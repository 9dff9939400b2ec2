import Zstandard.Error.Basic

/-!
# Samples

What a dictionary is made for: pieces of the data that will be compressed with it. A sample is
not empty, and they are kept one behind the other.
-/

namespace Zstandard

/-- Samples one behind the other. -/
structure Samples where
  bytes : ByteArray
  count : Nat
  deriving DecidableEq

namespace Samples

/-- The samples of a list. -/
def ofList? (samples : List ByteArray) : Except Error Samples :=
  if 2 ^ 32 ≤ samples.length then .error (.validateFailed "too many dictionary samples")
  else if samples.any (·.isEmpty) then
    .error (.validateFailed "dictionary sample should not be empty")
  else .ok ⟨samples.foldl (· ++ ·) .empty, samples.length⟩

end Samples

end Zstandard
