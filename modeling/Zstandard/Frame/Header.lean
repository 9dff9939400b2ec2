import Zstandard.Error.Code
import Zstandard.Slice

/-!
# Frame headers

A frame begins with a magic number. A data frame goes on with a descriptor byte that says which
fields follow: a window size unless the frame is a single segment, a dictionary identifier, a
content size. A skippable frame goes on with its length. `Header.scan` reads a header from the
bytes that are there and otherwise says how many it needs; fewer than five bytes are only held
against the two magic numbers.
-/

namespace Zstandard

/-- The number a data frame begins with. -/
def frameMagic : Nat := 0xFD2FB528

/-- The number a skippable frame begins with, up to its last four bits. -/
def skippableMagic : Nat := 0x184D2A50

/-- The largest block. -/
def blockLimit : Nat := 131072

/-- What the header of a data frame says. -/
structure FrameHeader where
  /-- The length of the header. -/
  size : Nat
  contentSize : Option Nat
  windowSize : Nat
  /-- 0 is none. -/
  dictionaryId : Nat
  hasChecksum : Bool
  deriving Repr, DecidableEq, Inhabited

/-- The largest block of a frame. -/
def FrameHeader.blockMax (h : FrameHeader) : Nat := min h.windowSize blockLimit

/-- The beginning of a frame. -/
inductive Header where
  | data (header : FrameHeader)
  | skippable (length : Nat)
  deriving Repr, DecidableEq, Inhabited

/-- A header, or the number of bytes it takes to know more. -/
inductive Scan where
  | needs (size : Nat)
  | found (header : Header)
  deriving Repr, DecidableEq

namespace Header

/-- Whether four bytes, the first ones from `s` and the others from `magic`, are a magic number
of skippable frames. -/
def isSkippable (magic : Nat) : Bool := magic / 16 == skippableMagic / 16

/-- The number of the first `n` bytes of `s`, at most four, completed with those of `magic`. -/
def completed (s : Slice) (magic : Nat) : Nat :=
  let n := min 4 s.size
  s.littleEndian 0 n + magic / 256 ^ n * 256 ^ n

/-- The length of a data frame's header with this descriptor. -/
def sizeFor (descriptor : Nat) : Nat :=
  let single := descriptor / 32 % 2
  let idSize := match descriptor % 4 with
    | 0 => 0
    | 1 => 1
    | 2 => 2
    | _ => 4
  let contentSize := match descriptor / 64 with
    | 0 => single
    | 1 => 2
    | 2 => 4
    | _ => 8
  5 + (1 - single) + idSize + contentSize

/-- The content size that is written for unknown. -/
def unknownSize : Nat := 2 ^ 64 - 1

/-- Reads the fields behind the descriptor. -/
def fields (s : Slice) (descriptor : Nat) : Except ErrorCode FrameHeader :=
  let single := descriptor / 32 % 2 = 1
  if descriptor / 8 % 2 = 1 then .error .frameParameterUnsupported
  else
    let windowByte := if single then 0 else (s.byte 5).toNat
    let windowLog := windowByte / 8 + 10
    if 31 < windowLog then .error .windowTooLarge
    else
      let place := if single then 5 else 6
      let idSize := match descriptor % 4 with
        | 0 => 0
        | 1 => 1
        | 2 => 2
        | _ => 4
      let behind := place + idSize
      let contentSize := match descriptor / 64 with
        | 0 => if single then some (s.littleEndian behind 1) else none
        | 1 => some (s.littleEndian behind 2 + 256)
        | 2 => some (s.littleEndian behind 4)
        | _ => some (s.littleEndian behind 8)
      let windowSize :=
        if single then contentSize.getD 0
        else 2 ^ windowLog + 2 ^ windowLog / 8 * (windowByte % 8)
      .ok {
        size := sizeFor descriptor
        contentSize := contentSize.filter (· != unknownSize)
        windowSize
        dictionaryId := s.littleEndian place idSize
        hasChecksum := descriptor / 4 % 2 == 1 }

/-- The header at the front of `s`, as far as the bytes tell. -/
def scan (s : Slice) : Except ErrorCode Scan :=
  if s.size < 5 then
    if completed s frameMagic = frameMagic ∨ isSkippable (completed s skippableMagic) then
      .ok (.needs 5)
    else .error .magicUnknown
  else
    let magic := s.littleEndian 0 4
    if magic = frameMagic then
      let descriptor := (s.byte 4).toNat
      let size := sizeFor descriptor
      if s.size < size then .ok (.needs size)
      else
        match fields s descriptor with
        | .error e => .error e
        | .ok header => .ok (.found (.data header))
    else if isSkippable magic then
      if s.size < 8 then .ok (.needs 8) else .ok (.found (.skippable (s.littleEndian 4 4)))
    else .error .magicUnknown

end Header

/-- What a block consists of. -/
inductive BlockKind where
  | raw
  | repeated
  | compressed
  deriving Repr, DecidableEq, Inhabited

/-- What the three bytes in front of a block say. -/
structure BlockHeader where
  kind : BlockKind
  /-- The size that is written: of the content, if it is raw or one byte repeated. -/
  size : Nat
  last : Bool
  deriving Repr, DecidableEq, Inhabited

namespace BlockHeader

/-- The block header at the front of `s`; one kind is reserved. -/
def read (s : Slice) : Except ErrorCode BlockHeader :=
  let word := s.littleEndian 0 3
  let size := word / 8
  let last := word % 2 == 1
  match word / 2 % 4 with
  | 0 => .ok ⟨.raw, size, last⟩
  | 1 => .ok ⟨.repeated, size, last⟩
  | 2 => .ok ⟨.compressed, size, last⟩
  | _ => .error .corruptionDetected

/-- How many bytes of the frame the block takes. -/
def storedSize (h : BlockHeader) : Nat :=
  match h.kind with
  | .repeated => 1
  | _ => h.size

/-- The three bytes in front of a block. -/
def write (h : BlockHeader) : ByteArray :=
  let kind := match h.kind with
    | .raw => 0
    | .repeated => 1
    | .compressed => 2
  let word := (if h.last then 1 else 0) + 2 * kind + 8 * h.size
  ⟨#[word.toUInt8, (word / 256).toUInt8, (word / 65536).toUInt8]⟩

/-- How many bytes the blocks at the front of `s` take, up to the last one, if they are there. -/
def extent? (s : Slice) : (fuel : Nat) → (place : Nat) → Option Nat
  | 0, _ => none
  | fuel + 1, place =>
    if s.size < place + 3 then none
    else
      match read (s.drop place) with
      | .error _ => none
      | .ok h =>
        let behind := place + 3 + h.storedSize
        if s.size < behind then none
        else if h.last then some behind
        else extent? s fuel behind

end BlockHeader

/-- The length of the whole data frame at the front of `s`, if it is there. -/
def FrameHeader.extent? (h : FrameHeader) (s : Slice) : Option Nat :=
  match BlockHeader.extent? s (s.size + 1) h.size with
  | none => none
  | some behind =>
    let size := if h.hasChecksum then behind + 4 else behind
    if size ≤ s.size then some size else none

end Zstandard
