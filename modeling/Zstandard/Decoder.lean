import Zstandard.Codec
import Zstandard.Frame.Decode
import Zstandard.Options.Basic

/-!
# The decoder: a codec from frames to their content

A decoder takes a frame in whatever pieces it comes in. What the frame needs next is taken straight
from the input if the input has all of it, and is collected otherwise; raw blocks and skippable
frames are taken as they come. Decoded content waits in the ring until there is room for it, and
the next piece is taken only when nothing waits.

Three rules shape a step:

* it never goes beyond the end of one frame;
* if a header promises a size that there is room for, and a frame lies whole in the input, that
  frame is decoded at once;
* a frame is done when its content is out: as long as some waits, the frame's last byte is given
  back and has to be offered again.

A step that fails uses nothing of its input and puts nothing out, but what it did until then stays
done. A header that failed is not given up, and fails again. A block header, a raw block or a
checksum that failed may be offered again. A compressed block that failed leaves nothing to be
expected: if it was taken straight from the input the frame counts as over, and otherwise nothing
but failures follows.

Steps that neither use nor produce anything are counted, and the sixteenth in a row fails.
-/

namespace Zstandard

/-- What the next input of a frame is for. -/
inductive Expected where
  | blockHeader
  | raw (left : Nat) (last : Bool)
  | repeated (size : Nat) (last : Bool)
  | compressed (size : Nat) (last : Bool)
  | checksum
  | skipped (left : Nat)
  | nothing

/-- A frame whose header has been read. -/
structure OpenFrame where
  /-- The header; that of a skippable frame has no content. -/
  header : FrameHeader
  expected : Expected
  /-- What has been collected for it, if it was not all there at once. -/
  collected : Option ByteArray
  decoded : Decoded
  /-- Where in the ring the content begins that has not been put out. -/
  place : Nat
  /-- How much that is. -/
  waiting : Nat
  /-- How much content the frame has given. -/
  total : Nat
  checksum : XXH64
  /-- The last byte of the frame has been given back. -/
  held : Bool

/-- The memory of a decoder: for a stored block and for decoded content. -/
structure Ring where
  stored : Nat
  content : Nat
  /-- How many frames in a row have needed far less. -/
  tooLargeFor : Nat

/-- A codec from frames to their content. -/
structure Decoder where
  /-- The largest window that is accepted. -/
  windowMax : Nat
  dictionary : Option LoadedDictionary
  /-- The dictionary is what was looked at last. -/
  warm : Bool
  ring : Ring
  /-- Steps in a row that did nothing. -/
  idle : Nat
  /-- The frame being decoded, or the bytes of a header so far. -/
  frame : ByteArray ⊕ OpenFrame

namespace Ring

/-- The content size a ring is measured by; an unknown one is larger than any ring. -/
def sizeBound (h : FrameHeader) : Nat := h.contentSize.getD (2 ^ 64 - 1)

/-- Far less is at most this part of what there is. -/
def wasteFactor : Nat := 3

/-- For how many frames in a row a ring is kept that is far too large. -/
def patience : Nat := 128

/-- The ring for a frame with this header: the one there is if it is large enough and has not been
far too large for too long, and otherwise a new one as the frame needs it. -/
def forFrame (ring : Ring) (h : FrameHeader) : Ring :=
  let stored := max h.blockMax 4
  let window := max h.windowSize 1024
  let content := min (sizeBound h) (window + 2 * min (min window blockLimit) h.blockMax + 64)
  let tooLargeFor :=
    if wasteFactor * (stored + content) ≤ ring.stored + ring.content then ring.tooLargeFor + 1
    else 0
  if ring.stored < stored ∨ ring.content < content ∨ patience ≤ tooLargeFor then
    ⟨stored, content, tooLargeFor⟩
  else { ring with tooLargeFor }

end Ring

namespace OpenFrame

/-- Puts out what there is room for, behind `out`. Once nothing waits any more, the place in the
ring goes back to its beginning if the next block might not fit. -/
def emit (ring : Ring) (room : Nat) (f : OpenFrame) (out : ByteArray) : OpenFrame × ByteArray :=
  if f.waiting = 0 then (f, out)
  else
    let n := min f.waiting (room - out.size)
    let out := f.decoded.window.bytes.copySlice f.place out out.size n false
    let place := f.place + n
    let wraps := f.waiting == n && decide (ring.content < Ring.sizeBound f.header)
      && decide (ring.content < place + f.header.blockMax)
    ({ f with waiting := f.waiting - n, place := if wraps then 0 else place }, out)

/-- What is left of a raw block behind `n` bytes of it, as a word of 64 bits. -/
def leftAfter (left n : Nat) : Nat := (left + (2 ^ 64 - n)) % 2 ^ 64

/-- How many bytes are needed next, with so many at hand. Where they need not be kept together, any
number will do. -/
def needed (f : OpenFrame) (available : Nat) : Nat :=
  match f.expected with
  | .blockHeader => 3
  | .raw left _ => max 1 (min available left)
  | .repeated _ _ => 1
  | .compressed size _ => size
  | .checksum => 4
  | .skipped left => max 1 (min available left)
  | .nothing => 0

/-- Whether the frame expects no more input. -/
def isOver (f : OpenFrame) : Bool :=
  match f.expected with
  | .nothing => true
  | .raw left _ => left == 0
  | _ => false

/-- The expectation behind the last block. -/
def afterBlocks (h : FrameHeader) : Expected := if h.hasChecksum then .checksum else .nothing

/-- The expectation behind a block header. -/
def afterHeader (h : FrameHeader) (b : BlockHeader) : Except ErrorCode Expected :=
  if h.blockMax < b.storedSize then .error .corruptionDetected
  else
    match b.kind with
    | .repeated => .ok (.repeated b.size b.last)
    | .raw =>
      if b.size = 0 then .ok (if b.last then afterBlocks h else .blockHeader)
      else .ok (.raw b.size b.last)
    | .compressed =>
      if b.size = 0 then .ok (if b.last then afterBlocks h else .blockHeader)
      else .ok (.compressed b.size b.last)

/-- Takes a block that `stored` holds and `b` describes, or a part of a raw one of which `left`
bytes are left. Content whose size contradicts the header is not put out. -/
def takeBlock (ring : Ring) (f : OpenFrame) (b : BlockHeader) (stored : Slice) (left : Nat) :
    Option ErrorCode × OpenFrame :=
  match f with
  | ⟨header, _, collected, ⟨window, inheritance, cold⟩, place, _, total, checksum, held⟩ =>
    let room := ring.content - place
    let window := if room = 0 then window else window.goTo place
    let start := window.stop
    let earlier := window.earlier
    let behind := if b.kind = .raw then .raw left b.last else .nothing
    match Frame.decodeBlock b stored ⟨header.blockMax, place, room, true⟩
        ⟨window, inheritance, cold⟩ with
    | .error e =>
      (some e, ⟨header, behind, collected, ⟨⟨.empty, 0, 0, earlier⟩, {}, false⟩, place, 0, total,
        checksum, held⟩)
    | .ok ⟨⟨bytes, first, stop, earlier⟩, inheritance, cold⟩ =>
      let size := stop - start
      if header.blockMax < size then
        (some .corruptionDetected, ⟨header, behind, collected,
          ⟨⟨bytes, first, start, earlier⟩, inheritance, cold⟩, place, 0, total, checksum, held⟩)
      else
        let total := total + size
        let checksum :=
          if header.hasChecksum then
            checksum.update (((Slice.ofBytes bytes).take stop).drop start)
          else checksum
        let decoded : Decoded := ⟨⟨bytes, first, stop, earlier⟩, inheritance, cold⟩
        if left ≠ 0 then
          (none, ⟨header, behind, none, decoded, place, size, total, checksum, held⟩)
        else if b.last && header.contentSize.any (· != total) then
          (some .corruptionDetected,
            ⟨header, behind, collected, decoded, place, 0, total, checksum, held⟩)
        else
          let expected := if b.last then afterBlocks header else .blockHeader
          (none, ⟨header, expected, none, decoded, place, size, total, checksum, held⟩)

/-- Uses as many bytes as were needed. -/
def consume (ring : Ring) (f : OpenFrame) (piece : Slice) : Option ErrorCode × OpenFrame :=
  match f.expected with
  | .blockHeader =>
    match BlockHeader.read piece with
    | .error e => (some e, f)
    | .ok b =>
      match afterHeader f.header b with
      | .error e => (some e, f)
      | .ok expected => (none, { f with expected, collected := none })
  | .raw left last =>
    if ring.content - f.place < piece.size then (some .destinationTooSmall, f)
    else takeBlock ring f ⟨.raw, piece.size, last⟩ piece (leftAfter left piece.size)
  | .repeated size last => takeBlock ring f ⟨.repeated, size, last⟩ piece 0
  | .compressed size last => takeBlock ring f ⟨.compressed, size, last⟩ piece 0
  | .checksum =>
    if f.checksum.low32 ≠ piece.littleEndian 0 4 then (some .checksumWrong, f)
    else (none, { f with expected := .nothing, collected := none })
  | .skipped left =>
    let left := left - piece.size
    (none, { f with expected := if left = 0 then .nothing else .skipped left })
  | .nothing => (some .corruptionDetected, f)

/-- How far a step gets inside a frame. -/
inductive Outcome where
  /-- Content or more input has to be waited for. -/
  | waits
  /-- Nothing is expected, and nothing is waited for. -/
  | closes
  | fails (code : ErrorCode)

/-- Puts out and takes in by turns, until something has to wait, the frame is over, or the input
is used up. Each turn but the last takes at least one byte. -/
def run (ring : Ring) (room : Nat) :
    (fuel : Nat) → OpenFrame → Slice → ByteArray → Outcome × OpenFrame × Slice × ByteArray
  | 0, f, input, out => (.waits, f, input, out)
  | fuel + 1, f, input, out =>
    match f.emit ring room out with
    | (f, out) =>
      let n := f.needed input.size
      if f.waiting ≠ 0 then (.waits, f, input, out)
      else if f.collected.isNone ∧ n = 0 then (.closes, f, input, out)
      else if f.collected.isNone ∧ n ≤ input.size then
        match f.consume ring (input.take n) with
        | (some e, f) => (.fails e, f, input, out)
        | (none, f) => run ring room fuel f (input.drop n) out
      else if f.collected.isNone ∧ input.isEmpty then (.waits, f, input, out)
      else
        let collected := f.collected.getD .empty
        let part := input.take (n - collected.size)
        let collected := part.appendTo collected
        let input := input.drop part.size
        if collected.size < n then
          (.waits, { f with collected := some collected }, input, out)
        else
          match { f with collected := some .empty }.consume ring (.ofBytes collected) with
          | (some e, f) => (.fails e, f, input, out)
          | (none, f) => run ring room fuel f input out

end OpenFrame

namespace Decoder

/-- The largest window that is accepted if nothing else is asked for. -/
def defaultWindowMax : Nat := 2 ^ 27 + 1

/-- How many steps in a row may do nothing. -/
def idleLimit : Nat := 16

/-- A decoder with these options. -/
def create (o : DecompressorOptions) : Except Error Decoder :=
  let windowMax := match o.windowLogMax with
    | none => defaultWindowMax
    | some log => if log = 0 then defaultWindowMax else 2 ^ log.toNat
  let make (dictionary : Option LoadedDictionary) : Decoder :=
    ⟨windowMax, dictionary, false, ⟨0, 0, 0⟩, 0, .inl .empty⟩
  match o.dictionary with
  | none => .ok (make none)
  | some d =>
    match d.load with
    | .error e => .error e.toError
    | .ok dictionary => .ok (make (some dictionary))

/-- Whether a frame begins with a dictionary that has to be brought in. -/
def isCold (d : Decoder) : Bool := d.dictionary.isSome && !d.warm

/-- The header of a skippable frame of some length, as far as the ring is concerned. -/
def skippableHeader (length : Nat) : FrameHeader :=
  { size := 8, contentSize := some length, windowSize := 0, dictionaryId := 0,
    hasChecksum := false }

/-- The frame behind a header. -/
def openFrame (d : Decoder) (h : Header) : Except ErrorCode OpenFrame :=
  let decoded := Frame.begin d.dictionary d.isCold
  match h with
  | .skippable length =>
    let expected := if length = 0 then .nothing else .skipped length
    .ok ⟨skippableHeader length, expected, none, decoded, 0, 0, 0, .empty, false⟩
  | .data header =>
    match Frame.checkDictionary d.dictionary header with
    | .error e => .error e
    | .ok () =>
      if d.windowMax < max header.windowSize 1024 then .error .windowTooLarge
      else .ok ⟨header, .blockHeader, none, decoded, 0, 0, 0, .empty, false⟩

/-- What a whole frame comes to. -/
structure Whole where
  content : ByteArray
  /-- The size of the frame. -/
  size : Nat
  /-- Whether the frame was a data frame. -/
  isData : Bool

/-- The frame at the front of `input`, if all of it is there; a skippable one has no content. -/
def whole? (d : Decoder) (input : Slice) (room : Nat) : Option (Except ErrorCode Whole) :=
  match Header.scan input with
  | .ok (.found (.data h)) =>
    (h.extent? input).map fun n =>
      (Frame.decode d.dictionary d.isCold h (input.take n) room).map (⟨·, n, true⟩)
  | .ok (.found (.skippable length)) =>
    if input.size < 8 + length then none else some (.ok ⟨.empty, 8 + length, false⟩)
  | _ => none

/-- Whether a header promises content that fits into `room` bytes. -/
def promisesToFit (h : Header) (room : Nat) : Bool :=
  match h with
  | .skippable _ => false
  | .data header => header.contentSize.any (· ≤ room)

/-- The decoder behind a frame. The dictionary is not what was looked at last if the frame has
written over its own content. -/
def close (d : Decoder) (f : OpenFrame) : Decoder :=
  let warm := match f.decoded.window.earlier with
    | .apart _ => true
    | .inside _ _ => false
  { d with warm, frame := .inl .empty }

/-- What a step comes to inside a frame: how much of the input it used, what it put out, and
whether the frame is done. -/
def settle (d : Decoder) (f : OpenFrame) (closes : Bool) (used : Nat) (out : ByteArray)
    (input : Slice) (room : Nat) : Except ErrorCode Step × Decoder :=
  let d := { d with idle := if used = 0 ∧ out.size = 0 then d.idle + 1 else 0 }
  let stay (f : OpenFrame) : Decoder := { d with frame := .inr f }
  let go : Decoder := if closes then d.close f else stay f
  if idleLimit ≤ d.idle ∧ room = 0 then (.error .stuckWithoutRoom, go)
  else if idleLimit ≤ d.idle ∧ input.isEmpty then (.error .stuckWithoutInput, go)
  else if !f.isOver then (.ok ⟨used, out, .pending⟩, go)
  else if f.waiting ≠ 0 then
    if f.held then (.ok ⟨used, out, .pending⟩, stay f)
    else (.ok ⟨used - 1, out, .pending⟩, stay { f with held := true })
  else if f.held then
    if input.size ≤ used then (.ok ⟨used, out, .pending⟩, stay f)
    else (.ok ⟨used + 1, out, .done⟩, go)
  else (.ok ⟨used, out, .done⟩, go)

/-- Goes on inside a frame, behind the first `used` bytes of the input. -/
def advance (d : Decoder) (f : OpenFrame) (used : Nat) (input : Slice) (room : Nat) :
    Except ErrorCode Step × Decoder :=
  match f.run d.ring room (input.size + 1) (input.drop used) .empty with
  | (.fails e, f, _, _) => (.error e, { d with frame := .inr f })
  | (.closes, f, rest, out) => d.settle f true (input.size - rest.size) out input room
  | (.waits, f, rest, out) => d.settle f false (input.size - rest.size) out input room

/-- Begins the frame behind a complete header, or decodes a whole one at once. -/
def begin (d : Decoder) (h : Header) (used : Nat) (input : Slice) (room : Nat) :
    Except ErrorCode Step × Decoder :=
  match if promisesToFit h room then d.whole? input room else none with
  | some (.error e) => (.error e, { d with warm := true })
  | some (.ok w) =>
    (.ok ⟨w.size, w.content, .done⟩,
      { d with warm := d.warm || w.isData, idle := 0, frame := .inl .empty })
  | none =>
    let opened := d.openFrame h
    let d := { d with warm := true }
    match opened with
    | .error e => (.error e, d)
    | .ok f => { d with ring := d.ring.forFrame f.header }.advance f used input room

/-- Collects a header, whose bytes so far are `collected`, and goes on behind it. The first `used`
bytes of the input have been collected already. -/
def collectHeader (d : Decoder) (input : Slice) (room : Nat) :
    (fuel : Nat) → (collected : ByteArray) → (used : Nat) → Except ErrorCode Step × Decoder
  | 0, _, _ => (.error .corruptionDetected, d)
  | fuel + 1, collected, used =>
    let d := { d with frame := .inl collected }
    match Header.scan (.ofBytes collected) with
    | .error e => (.error e, d)
    | .ok (.needs size) =>
      let rest := input.drop used
      let part := rest.take (size - collected.size)
      let collected := part.appendTo collected
      if collected.size < size then
        let d := { d with frame := .inl collected }
        match Header.scan (.ofBytes collected) with
        | .error e => (.error e, d)
        | .ok _ => (.ok ⟨input.size, .empty, .pending⟩, d)
      else collectHeader d input room fuel collected (used + part.size)
    | .ok (.found h) => d.begin h used input room

/-- One step. -/
def step (d : Decoder) (input : Slice) (room : Nat) : Except ErrorCode Step × Decoder :=
  match d with
  | ⟨windowMax, dictionary, warm, ring, idle, .inl collected⟩ =>
    collectHeader ⟨windowMax, dictionary, warm, ring, idle, .inl .empty⟩ input room 4 collected 0
  | ⟨windowMax, dictionary, warm, ring, idle, .inr f⟩ =>
    advance ⟨windowMax, dictionary, warm, ring, idle, .inl .empty⟩ f 0 input room

/-- One step, with the errors of this library. -/
def codecStep (d : Decoder) (input : Slice) (room : Nat) (_ : Directive) :
    Except Error Step × Decoder :=
  match d.step input room with
  | (.ok s, d) => (.ok s, d)
  | (.error e, d) => (.error e.toError, d)

instance : Codec Decoder where
  step := boundedStep codecStep
  endOfInput _ := .ok ()
  consumed_le h := (fits_of_boundedStep h).1
  produced_le h := (fits_of_boundedStep h).2

end Decoder

/-- A decoder that knows whether its input may end. -/
abbrev FrameDecoder := Framed Decoder

/-- A decoder with these options. -/
def FrameDecoder.create (o : DecompressorOptions) : Except Error FrameDecoder :=
  (Decoder.create o).map fun d => { codec := d }

end Zstandard
