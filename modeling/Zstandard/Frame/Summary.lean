import Zstandard.Frame.Header

/-!
# What a frame tells about itself

The fields of a frame's header that a reader may want to know before it decodes the frame. A header
that breaks off or is none has a content size too, one that no content can have. The checksum is a
bit of the fifth byte, whatever that byte belongs to.
-/

namespace Zstandard

/-- What the header of a frame tells. -/
structure FrameSummary where
  contentSize : Option Nat
  /-- 0 is none. -/
  dictionaryId : Nat
  /-- It is not known if the frame ends before. -/
  hasChecksum : Option Bool
  deriving Repr, DecidableEq

namespace FrameSummary

/-- The content size of a header that cannot be read. -/
def unreadableSize : Nat := 2 ^ 64 - 2

/-- The summary of the frame at the front of `s`; a skippable frame has no content. -/
def of (s : Slice) : FrameSummary :=
  let hasChecksum := if s.size < 5 then none else some ((s.byte 4).toNat / 4 % 2 == 1)
  match Header.scan s with
  | .ok (.found (.data h)) => ⟨h.contentSize, h.dictionaryId, hasChecksum⟩
  | .ok (.found (.skippable _)) => ⟨some 0, s.littleEndian 0 4 - skippableMagic, hasChecksum⟩
  | _ => ⟨some unreadableSize, 0, hasChecksum⟩

end FrameSummary

end Zstandard
