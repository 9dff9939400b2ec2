import Zstandard.Buffer.Source
import Zstandard.Session

/-!
# Readers that compress or decompress

A compressing reader takes plain bytes from a reader and gives out a frame; a decompressing
reader takes frames and gives out their content. Both keep what a session put out and nobody has
read, and fetch more only when there is none of it: what a read gives depends on the caller's
room only in where it cuts.

A failed read can be tried again. The source buffer still holds what was read before, and the
failure has changed nothing else.
-/

namespace Zstandard

/-- Gives out the frame for what a reader has. -/
structure CompressingReader (κ ρ : Type) where
  reader : ρ
  source : SourceBuffer
  session : Session κ
  /-- Output that nobody has read. -/
  output : Slice
  /-- The last push filled the destination. -/
  destinationFull : Bool
  /-- The reader has no more. -/
  finishing : Bool

/-- Gives out the content of the frames a reader has. -/
structure DecompressingReader (κ ρ : Type) where
  reader : ρ
  source : SourceBuffer
  session : Session κ
  /-- Output that nobody has read. -/
  output : Slice
  /-- The last push filled the destination. -/
  destinationFull : Bool
  /-- The last push neither used nor produced anything. -/
  stalled : Bool
  finished : Bool

namespace CompressingReader

variable {κ ρ : Type} [Codec κ]

/-- A new reader around `reader`. -/
def create (memory : Memory) (make : CompressorOptions → Except Error κ) (o : CompressorOptions)
    (reader : ρ) (log : Log) : Except Error (CompressingReader κ ρ) × Log :=
  match SourceBuffer.create memory o.sourceLength with
  | .error e => (.error e, log)
  | .ok source =>
    match Session.compressor memory make o log with
    | (.error e, log) => (.error e, log)
    | (.ok session, log) => (.ok ⟨reader, source, session, .empty, false, false⟩, log)

/-- Takes what the session holds for output. -/
def collect (c : CompressingReader κ ρ) : Except (Halt Error) Unit × CompressingReader κ ρ :=
  match c with
  | ⟨reader, source, session, output, full, finishing⟩ =>
    match session.drain with
    | (.ok bytes, session) => (.ok (), ⟨reader, source, session, .ofBytes bytes, full, finishing⟩)
    | (.error e, session) =>
      (.error (.failed e), ⟨reader, source, session, output, full, finishing⟩)

/-- Pushes the pending bytes and takes the output. -/
def advance (c : CompressingReader κ ρ) : Except (Halt Error) Unit × CompressingReader κ ρ :=
  match c with
  | ⟨reader, source, session, output, full, finishing⟩ =>
    match session.push source.pending with
    | (.ok p, session) =>
      collect ⟨reader, source.consume p.consumed, session, output, p.full, finishing⟩
    | (.error e, session) =>
      (.error (.failed e), ⟨reader, source, session, output, full, finishing⟩)

/-- Makes the next piece of output, which may be empty. -/
def fill [Reader ρ] (turns : Nat) (c : CompressingReader κ ρ) :
    Except (Halt Error) Unit × CompressingReader κ ρ :=
  if c.finishing then
    match c with
    | ⟨reader, source, session, output, full, finishing⟩ =>
      match session.finish with
      | (.ok _, session) => collect ⟨reader, source, session, output, full, finishing⟩
      | (.error e, session) =>
        (.error (.failed e), ⟨reader, source, session, output, full, finishing⟩)
  else if c.source.pending.isEmpty && !c.destinationFull then
    match c with
    | ⟨reader, source, session, output, full, finishing⟩ =>
      match source.refill turns reader with
      | (.ok .finished, source, reader) => (.ok (), ⟨reader, source, session, output, full, true⟩)
      | (.ok (.read _), source, reader) =>
        advance ⟨reader, source, session, output, full, finishing⟩
      | (.error h, source, reader) => (.error h, ⟨reader, source, session, output, full, finishing⟩)
  else advance c

/-- Makes output until there is some, or until the frame has ended. -/
def prepare [Reader ρ] : (turns : Nat) → CompressingReader κ ρ →
    Except (Halt Error) Unit × CompressingReader κ ρ
  | 0, c => (.error .outOfTurns, c)
  | turns + 1, c =>
    if !c.output.isEmpty || c.session.isFinished then (.ok (), c)
    else
      match c.fill turns with
      | (.ok (), c) => prepare turns c
      | (.error h, c) => (.error h, c)

/-- Reads at most `room` bytes of the frame; none means that it has ended. -/
def read [Reader ρ] (turns room : Nat) (c : CompressingReader κ ρ) :
    Except (Halt IoError) ByteArray × CompressingReader κ ρ :=
  if room = 0 then (.ok .empty, c)
  else
    match c.prepare turns with
    | (.error h, c) => (.error (h.map Error.toIoError), c)
    | (.ok (), c) => (.ok (c.output.take room).toBytes, { c with output := c.output.drop room })

end CompressingReader

namespace DecompressingReader

variable {κ ρ : Type} [Codec κ]

/-- A new reader around `reader`. -/
def create (memory : Memory) (make : DecompressorOptions → Except Error κ)
    (o : DecompressorOptions) (reader : ρ) (log : Log) :
    Except Error (DecompressingReader κ ρ) × Log :=
  match SourceBuffer.create memory o.sourceLength with
  | .error e => (.error e, log)
  | .ok source =>
    match Session.decompressor memory make o log with
    | (.error e, log) => (.error e, log)
    | (.ok session, log) => (.ok ⟨reader, source, session, .empty, false, false, false⟩, log)

/-- Whether the next piece of output needs a read first. -/
def needsInput (d : DecompressingReader κ ρ) : Bool :=
  (d.source.pending.isEmpty && !d.destinationFull) || d.stalled

/-- Pushes the pending bytes and takes the output. -/
def advance (d : DecompressingReader κ ρ) :
    Except (Halt Error) Unit × DecompressingReader κ ρ :=
  match d with
  | ⟨reader, source, session, output, full, stalled, finished⟩ =>
    match session.push source.pending with
    | (.error e, session) =>
      (.error (.failed e), ⟨reader, source, session, output, full, stalled, finished⟩)
    | (.ok p, session) =>
      let source := source.consume p.consumed
      match session.drain with
      | (.error e, session) =>
        (.error (.failed e), ⟨reader, source, session, output, p.full, stalled, finished⟩)
      | (.ok bytes, session) =>
        (.ok (), ⟨reader, source, session, .ofBytes bytes, p.full,
          p.consumed == 0 && bytes.isEmpty, finished⟩)

/-- Ends the session where the reader has ended, which has to be the end of a frame. -/
def conclude (d : DecompressingReader κ ρ) :
    Except (Halt Error) Unit × DecompressingReader κ ρ :=
  if d.source.pending.isEmpty then
    match d.session.endOfInput with
    | .error e => (.error (.failed e), d)
    | .ok () => (.ok (), { d with session := d.session.close, finished := true })
  else (.error (.failed .corruptedSource), d)

/-- Makes the next piece of output, which may be empty. -/
def fill [Reader ρ] (turns : Nat) (d : DecompressingReader κ ρ) :
    Except (Halt Error) Unit × DecompressingReader κ ρ :=
  if d.needsInput then
    match d with
    | ⟨reader, source, session, output, full, stalled, finished⟩ =>
      match source.refill turns reader with
      | (.ok .finished, source, reader) =>
        conclude ⟨reader, source, session, output, full, stalled, finished⟩
      | (.ok (.read _), source, reader) =>
        advance ⟨reader, source, session, output, full, stalled, finished⟩
      | (.error h, source, reader) =>
        (.error h, ⟨reader, source, session, output, full, stalled, finished⟩)
  else advance d

/-- Makes output until there is some, or until the last frame has ended. -/
def prepare [Reader ρ] : (turns : Nat) → DecompressingReader κ ρ →
    Except (Halt Error) Unit × DecompressingReader κ ρ
  | 0, d => (.error .outOfTurns, d)
  | turns + 1, d =>
    if !d.output.isEmpty || d.finished then (.ok (), d)
    else
      match d.fill turns with
      | (.ok (), d) => prepare turns d
      | (.error h, d) => (.error h, d)

/-- Reads at most `room` bytes of the content; none means that it has ended. -/
def read [Reader ρ] (turns room : Nat) (d : DecompressingReader κ ρ) :
    Except (Halt IoError) ByteArray × DecompressingReader κ ρ :=
  if room = 0 then (.ok .empty, d)
  else
    match d.prepare turns with
    | (.error h, d) => (.error (h.map Error.toIoError), d)
    | (.ok (), d) => (.ok (d.output.take room).toBytes, { d with output := d.output.drop room })

end DecompressingReader

end Zstandard
