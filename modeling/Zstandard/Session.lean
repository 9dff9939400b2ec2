import Zstandard.Buffer.Destination
import Zstandard.Codec
import Zstandard.Options.Setup

/-!
# Sessions: a codec driven by hand

A session is a codec with a destination buffer and a phase. While it is active, bytes are pushed
into it; what comes out stays in the destination until it is drained. Finishing a compressing
session closes its frame; once that is done only draining is left, and nothing at all once the
session is closed. Each operation makes at most one codec step, and none in a phase that does not
allow it.
-/

namespace Zstandard

/-- How far a session has come. -/
inductive Phase where
  | active
  | finished
  | closed
  deriving Repr, DecidableEq, Inhabited

/-- A codec with a destination buffer, driven by hand. -/
structure Session (κ : Type) where
  codec : κ
  destination : DestinationBuffer
  phase : Phase

/-- What a push came to: how much was used, and whether the destination is full now. -/
structure Pushed where
  consumed : Nat
  full : Bool
  deriving Repr, DecidableEq

namespace Session

variable {κ : Type} [Codec κ]

/-- A new session around a codec. -/
def create (memory : Memory) (codec : κ) (destinationLength : Nat) : Except Error (Session κ) :=
  match DestinationBuffer.create memory destinationLength with
  | .error e => .error e
  | .ok destination => .ok ⟨codec, destination, .active⟩

/-- A new session that compresses. -/
def compressor (memory : Memory) (make : CompressorOptions → Except Error κ)
    (o : CompressorOptions) (log : Log) : Except Error (Session κ) × Log :=
  match o.validate with
  | .error e => (.error e, log)
  | .ok () =>
    match o.setUp make log with
    | (.error e, log) => (.error e, log)
    | (.ok codec, log) => (create memory codec o.destinationLength, log)

/-- A new session that decompresses. -/
def decompressor (memory : Memory) (make : DecompressorOptions → Except Error κ)
    (o : DecompressorOptions) (log : Log) : Except Error (Session κ) × Log :=
  match o.validate with
  | .error e => (.error e, log)
  | .ok () =>
    match o.setUp make log with
    | (.error e, log) => (.error e, log)
    | (.ok codec, log) => (create memory codec o.destinationLength, log)

/-- One step of the codec, if the session is active. -/
def step (input : Slice) (directive : Directive) (s : Session κ) :
    Except Error Step × Session κ :=
  match s with
  | ⟨codec, destination, .active⟩ =>
    match Codec.step codec input destination.free directive with
    | (.ok step, codec) => (.ok step, ⟨codec, destination.append step.produced, .active⟩)
    | (.error e, codec) => (.error e, ⟨codec, destination, .active⟩)
  | s => (.error .usedAfterClose, s)

/-- Feeds `input`; a full destination has to be drained before the codec can go on. -/
def push (input : Slice) (s : Session κ) : Except Error Pushed × Session κ :=
  match s.step input .feed with
  | (.ok step, s) => (.ok ⟨step.consumed, s.destination.isFull⟩, s)
  | (.error e, s) => (.error e, s)

/-- Puts out what was pushed so far. Tells whether more is to come after a drain. -/
def flush (s : Session κ) : Except Error Bool × Session κ :=
  match s.step .empty .flush with
  | (.ok step, s) => (.ok (step.completion == .pending), s)
  | (.error e, s) => (.error e, s)

/-- Closes the frame. Tells whether more is to come after a drain; if not, the session is
finished. -/
def finish (s : Session κ) : Except Error Bool × Session κ :=
  match s.step .empty .finish with
  | (.ok step, s) =>
    match step.completion with
    | .pending => (.ok true, s)
    | .done => (.ok false, { s with phase := .finished })
  | (.error e, s) => (.error e, s)

/-- Takes what the destination holds. -/
def drain (s : Session κ) : Except Error ByteArray × Session κ :=
  match s with
  | ⟨codec, destination, .closed⟩ => (.error .usedAfterClose, ⟨codec, destination, .closed⟩)
  | ⟨codec, destination, phase⟩ =>
    match destination.drain with
    | (bytes, destination) => (.ok bytes, ⟨codec, destination, phase⟩)

/-- Whether the input pushed so far may end here. -/
def endOfInput (s : Session κ) : Except Error Unit :=
  match s.phase with
  | .closed => .error .usedAfterClose
  | _ => Codec.endOfInput s.codec

/-- Whether only draining is left. -/
def isFinished (s : Session κ) : Bool := s.phase == .finished

/-- Whether nothing is left. -/
def isClosed (s : Session κ) : Bool := s.phase == .closed

/-- Gives up the codec and the buffer. -/
def close (s : Session κ) : Session κ := { s with phase := .closed }

end Session

end Zstandard
