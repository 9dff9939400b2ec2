import Zstandard.Block.Encode
import Zstandard.Codec
import Zstandard.Dictionary.Format
import Zstandard.Frame.Plan
import Zstandard.XXH64

/-!
# The encoder: a codec from content to frames

An encoder collects its input until a block is full, or until it is told to put out what it has.
Encoded bytes wait until there is room for them, and nothing more is taken while they do. A frame
begins with the first step, which decides on its plan; its header goes out with its first block.
A step that closes a frame encodes its whole input at once if nothing has been collected and there
is room for it in any case.

The size of the source may be pledged. More content than that, or less at the end, is a failure. A
first step that closes the frame knows the size from its input and does not look at the pledge.
Behind a finished frame the next step begins another one, of unknown size.

A step that fails uses nothing of its input and puts nothing out, but what it did until then stays
done: what it has collected stays collected, what it has encoded is lost, and an end that it has
written cannot be written again.
-/

namespace Zstandard

/-- How much of a frame has been written. -/
inductive FrameStage where
  | nothing
  /-- The header, and perhaps blocks. -/
  | blocks
  /-- The last block. -/
  | lastBlock
  /-- The end, with the checksum. -/
  | all
  deriving DecidableEq

/-- A frame being made. -/
structure FrameInProgress where
  plan : FramePlan
  /-- Input that is not encoded yet. -/
  input : ByteArray
  /-- The input is encoded when it has this size. -/
  target : Nat
  /-- Where in the memory for input the collected input begins. -/
  place : Nat
  /-- Encoded bytes that have not been put out. -/
  encoded : Slice
  stage : FrameStage
  /-- The frame is complete. -/
  ended : Bool
  /-- How much content was encoded. -/
  total : Nat
  checksum : XXH64
  coder : BlockCoder

/-- How far an encoder has come. -/
inductive EncoderState where
  | idle (pledged : Option Nat)
  | busy (frame : FrameInProgress)

/-- A codec from content to frames. -/
structure Encoder where
  options : CompressorOptions
  state : EncoderState

namespace FrameInProgress

/-- A new frame. -/
def create (o : CompressorOptions) (sourceSize : Option Nat)
    (dictionary : Option LoadedDictionary) : FrameInProgress :=
  let plan := FramePlan.make o ((dictionary.map (·.id)).getD 0) ((o.dictionary.map (·.size)).getD 0)
    sourceSize
  let block := plan.blockSize
  let content := (dictionary.map (·.content.toBytes)).getD .empty
  let inheritance := (dictionary.map (·.inheritance)).getD {}
  let (long, short) := plan.hashKinds content.size
  let recent := (inheritance.offsets.first, inheritance.offsets.second)
  { plan
    input := .empty
    target := if sourceSize = some block then block + 1 else block
    place := 0
    encoded := .empty
    stage := .nothing
    ended := false
    total := 0
    checksum := .empty
    coder :=
      ⟨.create long short plan.window recent content, LiteralCode.ofInheritance inheritance,
        true⟩ }

/-- What `n` bytes of content take at most, in blocks of the usual size. -/
def sizeLimit (n : Nat) : Nat :=
  n + n / 256 + (if n < blockLimit then (blockLimit - n) / 2048 else 0)

/-- A block is not begun with less room than this. -/
def leastRoom : Nat := 6

/-- Encodes content block by block, behind `out`, which must not outgrow `room`. The last block is
marked if `last` is. -/
def encodeBlocks (block : Nat) (last : Bool) (room : Nat) :
    (fuel : Nat) → Slice → BlockCoder → ByteArray → Option ByteArray × BlockCoder
  | 0, _, coder, out => (some out, coder)
  | fuel + 1, content, coder, out =>
    if content.isEmpty then (some out, coder)
    else if room < out.size + leastRoom then (none, coder)
    else
      let rest := content.drop block
      match coder.encode (content.take block) (last && rest.isEmpty) with
      | (encoded, coder) =>
        if room < out.size + encoded.size then (none, coder)
        else encodeBlocks block last room fuel rest coder (out ++ encoded)

/-- Hands over encoded bytes; what was collected for them is done with. -/
def handOver (f : FrameInProgress) (out : ByteArray) (ended : Bool) : FrameInProgress :=
  match f with
  | ⟨plan, input, _, place, _, stage, _, total, checksum, coder⟩ =>
    let place := place + input.size
    ⟨plan, .empty, plan.blockSize, if plan.window < place then 0 else place, .ofBytes out, stage,
      ended, total, checksum, coder⟩

/-- Writes the end of the frame behind `out` and hands all of it over. -/
def encodeEnd (f : FrameInProgress) (room : Nat) (out : ByteArray) :
    Option ErrorCode × FrameInProgress :=
  let out := if f.stage = .lastBlock then out else out ++ BlockHeader.write ⟨.raw, 0, true⟩
  let out := if f.plan.hasChecksum then pushLittleEndian out f.checksum.low32 4 else out
  if room < out.size then (some .destinationTooSmall, f)
  else
    let f := { f with stage := .all }
    if f.plan.sourceSize.any (· != f.total) then (some .sourceSizeWrong, f)
    else (none, f.handOver out true)

/-- Encodes content into `room` bytes; with `last` also the end of the frame. -/
def encode (f : FrameInProgress) (content : Slice) (last : Bool) (room : Nat) :
    Option ErrorCode × FrameInProgress :=
  match f with
  | ⟨plan, input, target, place, encoded, stage, ended, total, checksum, coder⟩ =>
    if stage = .all then
      (some .stageWrong,
        ⟨plan, input, target, place, encoded, stage, ended, total, checksum, coder⟩)
    else
      let out := if stage = .nothing then plan.header else .empty
      let stage := if stage = .nothing then .blocks else stage
      let checksum := if plan.hasChecksum then checksum.update content else checksum
      match encodeBlocks plan.blockSize last room (content.size + 1) content coder out with
      | (none, coder) =>
        (some .destinationTooSmall,
          ⟨plan, input, target, place, encoded, stage, ended, total, checksum, coder⟩)
      | (some out, coder) =>
        let stage := if last && !content.isEmpty then .lastBlock else stage
        let total := total + content.size
        let f : FrameInProgress :=
          ⟨plan, input, target, place, encoded, stage, ended, total, checksum, coder⟩
        if !content.isEmpty && plan.sourceSize.any (· < total) then (some .sourceSizeWrong, f)
        else if last then f.encodeEnd room out
        else (none, f.handOver out false)

/-- Whether the whole input is to be encoded at once. -/
def takesAll (f : FrameInProgress) (directive : Directive) (input : Slice) (room : Nat) : Bool :=
  directive == .finish && decide (sizeLimit input.size ≤ room) && f.place == 0 && f.input.isEmpty

/-- The room that the collected input is encoded into: what is left if that is enough in any case,
and otherwise the memory for encoded bytes. -/
def roomFor (f : FrameInProgress) (left : Nat) : Nat :=
  if sizeLimit f.input.size ≤ left then left else sizeLimit f.plan.blockSize + 1

/-- Whether the collected input is too little for what is asked. -/
def isShort (f : FrameInProgress) : Directive → Bool
  | .feed => decide (f.input.size < f.target)
  | .flush => f.input.isEmpty
  | .finish => false

/-- Puts out and takes in by turns, until encoded bytes have to wait, the frame has ended, or
there is too little input for what is asked. Each turn but the last two takes input. -/
def run (room : Nat) (directive : Directive) :
    (fuel : Nat) → FrameInProgress → Slice → ByteArray →
    Option ErrorCode × FrameInProgress × Slice × ByteArray
  | 0, f, input, out => (none, f, input, out)
  | fuel + 1, f, input, out =>
    let part := f.encoded.take (room - out.size)
    let out := part.appendTo out
    let f := { f with encoded := f.encoded.drop part.size }
    let left := room - out.size
    if !f.encoded.isEmpty || f.ended then (none, f, input, out)
    else if f.takesAll directive input left then
      match f.encode input true left with
      | (some e, f) => (some e, f, input, out)
      | (none, f) => run room directive fuel f (input.drop input.size) out
    else
      let part := input.take (f.target - f.input.size)
      let input := input.drop part.size
      match f with
      | ⟨plan, collected, target, place, encoded, stage, ended, total, checksum, coder⟩ =>
        let collected := part.appendTo collected
        let f : FrameInProgress :=
          ⟨plan, collected, target, place, encoded, stage, ended, total, checksum, coder⟩
        if f.isShort directive then (none, f, input, out)
        else
          let last := directive == .finish && input.isEmpty
          match f.encode (.ofBytes collected) last (f.roomFor left) with
          | (some e, f) => (some e, f, input, out)
          | (none, f) => run room directive fuel f input out

end FrameInProgress

namespace Encoder

/-- The pledged size; the largest word stands for unknown. -/
def pledgedSize (o : CompressorOptions) : Option Nat :=
  match o.pledgedSize with
  | none => none
  | some size => if size = 18446744073709551615 then none else some size.toNat

/-- An encoder with these options. -/
def create (o : CompressorOptions) : Except Error Encoder := .ok ⟨o, .idle (pledgedSize o)⟩

/-- The dictionary, ready for use. One shorter than its magic number and identifier is not used. -/
def dictionary (o : CompressorOptions) : Except ErrorCode (Option LoadedDictionary) :=
  match o.dictionary with
  | none => .ok none
  | some d =>
    match d.load with
    | .error e => .error e
    | .ok loaded => .ok (if d.size < 8 then none else some loaded)

/-- Goes on with a frame. -/
def advance (o : CompressorOptions) (f : FrameInProgress) (input : Slice) (room : Nat)
    (directive : Directive) : Except Error Step × Encoder :=
  match f.run room directive (input.size + 3) input .empty with
  | (some e, f, _, _) => (.error e.toError, ⟨o, .busy f⟩)
  | (none, f, rest, out) =>
    let consumed := input.size - rest.size
    if !f.encoded.isEmpty then (.ok ⟨consumed, out, .pending⟩, ⟨o, .busy f⟩)
    else if f.ended then (.ok ⟨consumed, out, .done⟩, ⟨o, .idle none⟩)
    else (.ok ⟨consumed, out, .done⟩, ⟨o, .busy f⟩)

/-- One step. -/
def step (e : Encoder) (input : Slice) (room : Nat) (directive : Directive) :
    Except Error Step × Encoder :=
  match e with
  | ⟨o, .busy f⟩ => advance o f input room directive
  | ⟨o, .idle pledged⟩ =>
    match dictionary o with
    | .error code => (.error code.toError, ⟨o, .idle pledged⟩)
    | .ok d =>
      let sourceSize := if directive == .finish then some input.size else pledged
      advance o (.create o sourceSize d) input room directive

instance : Codec Encoder where
  step := boundedStep step
  endOfInput _ := .ok ()
  consumed_le h := (fits_of_boundedStep h).1
  produced_le h := (fits_of_boundedStep h).2

end Encoder

end Zstandard
