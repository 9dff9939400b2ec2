import Zstandard.Block.Decode
import Zstandard.Dictionary.Format
import Zstandard.Frame.Header
import Zstandard.XXH64

/-!
# Decoding a whole frame

A frame that lies whole in an array is decoded block by block. Its header is held against the
dictionary, the blocks against the room, and in the end the content against the size and the
checksum that the frame records. The window is the content itself, so nothing is written over, and
a block that is larger than a block may be is refused only where the room ends.
-/

namespace Zstandard

namespace Frame

/-- What the first block of a frame begins with. -/
def begin (dictionary : Option LoadedDictionary) (cold : Bool) : Decoded :=
  match dictionary with
  | none => ⟨.behind .empty, {}, false⟩
  | some d => ⟨.behind d.bytes, d.inheritance, cold⟩

/-- Whether the frame can be decoded with this dictionary. -/
def checkDictionary (dictionary : Option LoadedDictionary) (h : FrameHeader) :
    Except ErrorCode Unit :=
  if h.dictionaryId = 0 ∨ h.dictionaryId = (dictionary.map (·.id)).getD 0 then .ok ()
  else .error .dictionaryWrong

/-- Decodes one block that lies whole in `stored`. -/
def decodeBlock (h : BlockHeader) (stored : Slice) (b : BlockBounds) (d : Decoded) :
    Except ErrorCode Decoded :=
  match h.kind with
  | .compressed => Block.decode stored b d
  | .raw =>
    if b.room < h.size then .error .destinationTooSmall
    else
      match d with
      | ⟨window, inheritance, cold⟩ => .ok ⟨window.append stored, inheritance, cold⟩
  | .repeated =>
    if b.room < h.size then .error .destinationTooSmall
    else
      match d with
      | ⟨window, inheritance, cold⟩ =>
        .ok ⟨window.append (Block.repeated (stored.byte 0) h.size), inheritance, cold⟩

/-- Decodes blocks from `place` on up to the last one, into `room` bytes. Gives the content behind
what `d` had, and the place behind the last block. -/
def decodeBlocks (s : Slice) (blockMax room : Nat) :
    (fuel : Nat) → (place : Nat) → Decoded → Except ErrorCode (Decoded × Nat)
  | 0, _, _ => .error .sourceSizeWrong
  | fuel + 1, place, d =>
    if s.size < place + 3 then .error .sourceSizeWrong
    else
      match BlockHeader.read (s.drop place) with
      | .error e => .error e
      | .ok h =>
        let behind := place + 3 + h.storedSize
        if s.size < behind then .error .sourceSizeWrong
        else
          let b : BlockBounds := ⟨blockMax, d.window.stop, room - d.window.stop, false⟩
          match decodeBlock h ((s.drop (place + 3)).take h.storedSize) b d with
          | .error e => .error e
          | .ok d => if h.last then .ok (d, behind) else decodeBlocks s blockMax room fuel behind d

/-- Decodes the data frame in `s`, whose header is `h`, into `room` bytes. -/
def decode (dictionary : Option LoadedDictionary) (cold : Bool) (h : FrameHeader) (s : Slice)
    (room : Nat) : Except ErrorCode ByteArray := do
  checkDictionary dictionary h
  let (d, behind) ← decodeBlocks s h.blockMax room (s.size + 1) h.size (begin dictionary cold)
  let content := d.window.content 0 d.window.stop
  if h.contentSize.any (· != content.size) then throw .corruptionDetected
  if h.hasChecksum then
    if (XXH64.empty.update (.ofBytes content)).low32 ≠ s.littleEndian behind 4 then
      throw .checksumWrong
  return content

end Frame

end Zstandard
