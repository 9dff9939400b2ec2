import Zstandard.Buffer.Growable
import Zstandard.Codec
import Zstandard.Endpoint
import Zstandard.Options.Setup

/-!
# One shot: a whole array in, a whole array out

The codec is stepped over the source, and the destination grows by one unit whenever it is full.
Compression ends with steps that close the frame; decompression ends where the source does, which
has to be the end of a frame.
-/

namespace Zstandard

/-- What came of a one-shot operation. -/
structure Conversion (κ : Type) where
  result : Except (Halt Error) ByteArray
  codec : Option κ
  log : Log

/-- A codec and the output it has made so far. -/
structure OneShot (κ : Type) where
  codec : κ
  destination : GrowableBuffer
  log : Log

namespace OneShot

variable {κ : Type} [Codec κ]

/-- Work on a one-shot operation: it changes it and gives a value, or halts. -/
abbrev Work (κ : Type) := EStateM (Halt Error) (OneShot κ)

/-- One step of the codec into the free part of the destination. -/
def step (input : Slice) (directive : Directive) : Work κ Step := fun o =>
  match o with
  | ⟨codec, destination, log⟩ =>
    match Codec.step codec input destination.free directive with
    | (.ok s, codec) => .ok s ⟨codec, destination.append s.produced, log⟩
    | (.error e, codec) => .error (.failed e) ⟨codec, destination, log⟩

/-- Grows the destination. -/
def grow (memory : Memory) : Work κ Unit := fun o =>
  match o with
  | ⟨codec, destination, log⟩ =>
    match destination.grow memory with
    | .ok destination => .ok () ⟨codec, destination, log.push (.grown destination.length)⟩
    | .error e => .error (.failed e) ⟨codec, destination, log⟩

/-- Feeds all of `remaining`, growing the destination when it is full or a step did nothing. -/
def feedAll (memory : Memory) : (turns : Nat) → (remaining : Slice) → Work κ Unit
  | 0, _ => throw .outOfTurns
  | turns + 1, remaining => do
    if remaining.isEmpty then return ()
    else
      let s ← step remaining .feed
      if (← get).destination.isFull || !s.madeProgress then
        grow memory
      feedAll memory turns (remaining.drop s.consumed)

/-- Closes the frame, growing the destination until the codec is done. -/
def finish (memory : Memory) : (turns : Nat) → Work κ Unit
  | 0 => throw .outOfTurns
  | turns + 1 => do
    let s ← step .empty .finish
    match s.completion with
    | .done => return ()
    | .pending =>
      grow memory
      finish memory turns

/-- Feeds all of `remaining` and goes on until a step leaves room in the destination. -/
def feedFrames (memory : Memory) : (turns : Nat) → (remaining : Slice) → Work κ Unit
  | 0, _ => throw .outOfTurns
  | turns + 1, remaining => do
    let s ← step remaining .feed
    let remaining := remaining.drop s.consumed
    if (← get).destination.isFull then
      grow memory
      feedFrames memory turns remaining
    else if remaining.isEmpty then return ()
    else if s.madeProgress then feedFrames memory turns remaining
    else throw (.failed .corruptedSource)

/-- Whether the input may end here. -/
def endOfInput : Work κ Unit := fun o =>
  match Codec.endOfInput o.codec with
  | .ok () => .ok () o
  | .error e => .error (.failed e) o

/-- Runs `work` with a new destination and takes the output. -/
def run (memory : Memory) (direction : Direction) (unit sourceSize : Nat) (work : Work κ Unit)
    (codec : κ) (log : Log) : Conversion κ :=
  match GrowableBuffer.create memory unit with
  | .error e => ⟨.error (.failed e), some codec, log⟩
  | .ok destination =>
    match work ⟨codec, destination, log⟩ with
    | .ok () o =>
      let result := o.destination.bytes
      ⟨.ok result, some o.codec, o.log.push (.converted direction sourceSize result.size)⟩
    | .error h o => ⟨.error h, some o.codec, o.log⟩

/-- Compresses an array into one frame. The frame records its size, unless another is pledged. -/
def compress (memory : Memory) (create : CompressorOptions → Except Error κ) (turns : Nat)
    (o : CompressorOptions) (source : ByteArray) (log : Log) : Conversion κ :=
  match o.validate with
  | .error e => ⟨.error (.failed e), none, log⟩
  | .ok () =>
    match (o.orPledge source.size).setUp create log with
    | (.error e, log) => ⟨.error (.failed e), none, log⟩
    | (.ok codec, log) =>
      run memory .compress o.destinationLength source.size
        (do feedAll memory turns (.ofBytes source); finish memory turns) codec log

/-- Decompresses every frame in an array. -/
def decompress (memory : Memory) (create : DecompressorOptions → Except Error κ) (turns : Nat)
    (o : DecompressorOptions) (source : ByteArray) (log : Log) : Conversion κ :=
  match o.validate with
  | .error e => ⟨.error (.failed e), none, log⟩
  | .ok () =>
    match o.setUp create log with
    | (.error e, log) => ⟨.error (.failed e), none, log⟩
    | (.ok codec, log) =>
      run memory .decompress o.destinationLength source.size
        (do feedFrames memory turns (.ofBytes source); endOfInput) codec log

end OneShot

end Zstandard
