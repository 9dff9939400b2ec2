import Zstandard.Error.Basic

/-!
# Memory for buffers

A buffer is asked for by its length, and the request may be refused. `Memory` says which
lengths are granted; `Memory.machine` grants what an address space of 63 bits holds.
-/

namespace Zstandard

/-- Which lengths of memory are granted. -/
structure Memory where
  grants : Nat → Bool

/-- The memory of a machine: any length below 2^62. -/
def Memory.machine : Memory := ⟨fun length => decide (length < 2 ^ 62)⟩

end Zstandard
