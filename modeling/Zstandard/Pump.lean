import Zstandard.Buffer.Destination
import Zstandard.Buffer.Source
import Zstandard.Codec
import Zstandard.Report.Basic

/-!
# The pump: from a reader through a codec to a writer

A pump has a source buffer in front of its codec and a destination buffer behind it. Three
operations move bytes:

* `readSource` reads to the end of the reader and steps the codec over all of it, writing the
  destination out whenever it is full;
* `finish` steps the codec without input until it is done;
* `complete` writes out what is left and flushes the writer.

Nothing is dropped on the way: what the codec produced is what the writer took followed by what
the destination holds, and what was read is what the codec used followed by what is pending. An
error ends an operation at once, with the pump as it was left.
-/

namespace Zstandard

/-- A codec between a source buffer and a destination buffer. The ends are whatever the pump
reads from and writes to. -/
structure Pump (κ ε : Type) where
  codec : κ
  ends : ε
  source : SourceBuffer
  destination : DestinationBuffer
  readTotal : Nat
  writtenTotal : Nat
  log : Log

namespace Pump

variable {κ ε : Type}

/-- Work on a pump: it changes the pump and gives a value, or halts. -/
abbrev Work (κ ε : Type) := EStateM (Halt Error) (Pump κ ε)

/-- A pump with empty buffers. -/
def create (memory : Memory) (codec : κ) (ends : ε) (log : Log)
    (sourceLength destinationLength : Nat) : Except Error (Pump κ ε) :=
  match SourceBuffer.create memory sourceLength with
  | .error e => .error e
  | .ok source =>
    match DestinationBuffer.create memory destinationLength with
    | .error e => .error e
    | .ok destination => .ok ⟨codec, ends, source, destination, 0, 0, log⟩

/-- Notes a record. -/
def note (record : Record) : Work κ ε Unit :=
  modify fun p => { p with log := p.log.push record }

/-! ## Single moves -/

/-- Refills the source from the reader. -/
def refill [Reader ε] (turns : Nat) : Work κ ε Refill := fun p =>
  match p with
  | ⟨codec, ends, source, destination, readTotal, writtenTotal, log⟩ =>
    match source.refill turns ends with
    | (.ok (.read n), source, ends) =>
      .ok (.read n) ⟨codec, ends, source, destination, readTotal + n, writtenTotal, log⟩
    | (.ok .finished, source, ends) =>
      .ok .finished ⟨codec, ends, source, destination, readTotal, writtenTotal, log⟩
    | (.error h, source, ends) =>
      .error h ⟨codec, ends, source, destination, readTotal, writtenTotal, log⟩

/-- Steps the codec over the pending bytes, into the free part of the destination. -/
def feed [Codec κ] : Work κ ε Step := fun p =>
  match p with
  | ⟨codec, ends, source, destination, readTotal, writtenTotal, log⟩ =>
    match Codec.step codec source.pending destination.free .feed with
    | (.ok s, codec) =>
      .ok s ⟨codec, ends, source.consume s.consumed, destination.append s.produced,
        readTotal, writtenTotal, log⟩
    | (.error e, codec) =>
      .error (.failed e) ⟨codec, ends, source, destination, readTotal, writtenTotal, log⟩

/-- Steps the codec without input, to close the frame. -/
def close [Codec κ] : Work κ ε Step := fun p =>
  match p with
  | ⟨codec, ends, source, destination, readTotal, writtenTotal, log⟩ =>
    match Codec.step codec .empty destination.free .finish with
    | (.ok s, codec) =>
      .ok s ⟨codec, ends, source, destination.append s.produced, readTotal, writtenTotal, log⟩
    | (.error e, codec) =>
      .error (.failed e) ⟨codec, ends, source, destination, readTotal, writtenTotal, log⟩

/-- Writes the destination out. -/
def flush [Writer ε] (turns : Nat) : Work κ ε Unit := fun p =>
  match p with
  | ⟨codec, ends, source, destination, readTotal, writtenTotal, log⟩ =>
    let size := destination.bytes.size
    let log := if size = 0 then log else log.push (.flushed size)
    match destination.flush turns ends with
    | (.ok (), destination, ends) =>
      .ok () ⟨codec, ends, source, destination, readTotal, writtenTotal + size, log⟩
    | (.error h, destination, ends) =>
      .error h ⟨codec, ends, source, destination, readTotal, writtenTotal, log⟩

/-! ## Operations -/

/-- Steps the codec over the pending bytes until it leaves room in the destination, writing the
destination out each time it is full. Tells whether any step made progress. -/
def feedPending [Codec κ] [Writer ε] : (turns : Nat) → (progress : Bool) → Work κ ε Bool
  | 0, _ => throw .outOfTurns
  | turns + 1, progress => do
    let step ← feed
    let progress := progress || step.madeProgress
    if (← get).destination.isFull then
      flush turns
      feedPending turns progress
    else
      return progress

/-- Reads until the reader has no more, feeding the codec after each read. Tells whether the
codec was fed at all. -/
def feedReader [Codec κ] [Reader ε] [Writer ε] : (turns : Nat) → (fed : Bool) → Work κ ε Bool
  | 0, _ => throw .outOfTurns
  | turns + 1, fed => do
    match ← refill turns with
    | .read _ =>
      let _ ← feedPending turns false
      feedReader turns true
    | .finished => return fed

/-- Feeds what is pending after the last read, which may hold the beginning of another frame.
Each round has to make progress. Tells whether the codec was fed at all. -/
def feedRemainder [Codec κ] [Writer ε] : (turns : Nat) → (fed : Bool) → Work κ ε Bool
  | 0, _ => throw .outOfTurns
  | turns + 1, fed => do
    if (← get).source.pending.isEmpty then return fed
    else
      if ← feedPending turns false then feedRemainder turns true
      else
        throw (.failed (.readIo (.plain .invalidData "source remainder was not consumed")))

/-- Feeds everything the reader has to the codec. The codec is fed at least once, also if there
is nothing to read. -/
def readSource [Codec κ] [Reader ε] [Writer ε] (turns : Nat) : Work κ ε Unit := do
  let fed ← feedReader turns false
  let fed ← feedRemainder turns fed
  if fed then return ()
  else
    let _ ← feedPending turns false

/-- Closes the frame: steps the codec without input until it is done. -/
def finish [Codec κ] [Writer ε] : (turns : Nat) → Work κ ε Unit
  | 0 => throw .outOfTurns
  | turns + 1 => do
    let step ← close
    match step.completion with
    | .pending =>
      flush turns
      finish turns
    | .done => return ()

/-- Writes out what is left and flushes the writer. -/
def complete [Writer ε] (turns : Nat) : Work κ ε Unit := fun p =>
  match p with
  | ⟨codec, ends, source, destination, readTotal, writtenTotal, log⟩ =>
    let size := destination.bytes.size
    let writtenTotal := writtenTotal + size
    let log := if size = 0 then log else log.push (.flushed size)
    match destination.writeRemaining turns ends with
    | (.error h, destination, ends) =>
      .error h ⟨codec, ends, source, destination, readTotal, writtenTotal, log⟩
    | (.ok (), destination, ends) =>
      match Writer.flush ends with
      | (.error e, ends) =>
        .error (.failed (.writeIo e))
          ⟨codec, ends, source, destination, readTotal, writtenTotal, log⟩
      | (.ok (), ends) =>
        .ok () ⟨codec, ends, source, destination, readTotal, writtenTotal,
          log.push (.streamDone readTotal writtenTotal)⟩

/-- Whether the input may end here. -/
def endOfInput [Codec κ] : Work κ ε Unit := fun p =>
  match Codec.endOfInput p.codec with
  | .ok () => .ok () p
  | .error e => .error (.failed e) p

end Pump

end Zstandard
