import Zstandard.Endpoint
import Zstandard.Session

/-!
# Writers that compress or decompress

A compressing writer takes plain bytes and writes a frame to the writer behind it; a
decompressing writer takes frames and writes their content. `write` tells how many bytes were
used, and may be offered the rest again.

A compressing writer has to be finished for its frame to end. One that is released without that
still tries to end the frame, and does not tell whether it could. A failed `finish` releases the
writer, so it makes a second attempt.
-/

namespace Zstandard

/-- Writes the frame for what is written to it. -/
structure CompressingWriter (κ ω : Type) where
  writer : ω
  session : Session κ

/-- Writes the content of the frames that are written to it. -/
structure DecompressingWriter (κ ω : Type) where
  writer : ω
  session : Session κ

namespace CompressingWriter

variable {κ ω : Type} [Codec κ]

/-- Work on a compressing writer. -/
abbrev Work (κ ω : Type) := EStateM (Halt Error) (CompressingWriter κ ω)

/-- A new writer in front of `writer`. -/
def create (memory : Memory) (make : CompressorOptions → Except Error κ) (o : CompressorOptions)
    (writer : ω) (log : Log) : Except Error (CompressingWriter κ ω) × Log :=
  match Session.compressor memory make o log with
  | (.error e, log) => (.error e, log)
  | (.ok session, log) => (.ok ⟨writer, session⟩, log)

/-- An operation of the session. -/
def onSession {α : Type} (operation : Session κ → Except Error α × Session κ) : Work κ ω α :=
  fun c =>
    match c with
    | ⟨writer, session⟩ =>
      match operation session with
      | (.ok a, session) => .ok a ⟨writer, session⟩
      | (.error e, session) => .error (.failed e) ⟨writer, session⟩

/-- Writes bytes to the writer behind. -/
def deliver [Writer ω] (turns : Nat) (bytes : ByteArray) : Work κ ω Unit := fun c =>
  match c with
  | ⟨writer, session⟩ =>
    match writeAll turns writer (.ofBytes bytes) with
    | (.ok (), writer) => .ok () ⟨writer, session⟩
    | (.error h, writer) => .error (h.map .writeIo) ⟨writer, session⟩

/-- Flushes the writer behind. -/
def flushWriter [Writer ω] : Work κ ω Unit := fun c =>
  match c with
  | ⟨writer, session⟩ =>
    match Writer.flush writer with
    | (.ok (), writer) => .ok () ⟨writer, session⟩
    | (.error e, writer) => .error (.failed (.writeIo e)) ⟨writer, session⟩

/-- Moves the session's output to the writer behind. Tells how many bytes that were. -/
def drain [Writer ω] (turns : Nat) : Work κ ω Nat := do
  let bytes ← onSession Session.drain
  deliver turns bytes
  return bytes.size

/-- Repeats a request to the session, which tells whether more is to come, draining after each. -/
def drainWhile [Writer ω] (request : Session κ → Except Error Bool × Session κ) :
    (turns : Nat) → Work κ ω Unit
  | 0 => throw .outOfTurns
  | turns + 1 => do
    let more ← onSession request
    let _ ← drain turns
    if more then drainWhile request turns else return ()

/-- Ends the frame and flushes the writer behind. -/
def finishFrame [Writer ω] (turns : Nat) : Work κ ω Unit := do
  drainWhile Session.finish turns
  flushWriter

/-- Puts out all that was written so far and flushes the writer behind. -/
def flushFrame [Writer ω] (turns : Nat) : Work κ ω Unit := do
  drainWhile Session.flush turns
  flushWriter

/-- Pushes until some of `input` is used. Tells how much. -/
def writeChunk [Writer ω] (input : Slice) : (turns : Nat) → Work κ ω Nat
  | 0 => throw .outOfTurns
  | turns + 1 => do
    let p ← onSession (Session.push input)
    if p.full then
      if (← drain turns) = 0 then throw (.failed .notEnoughDestination)
    if p.consumed ≠ 0 ∨ input.isEmpty then return p.consumed
    else if p.full then writeChunk input turns
    else throw (.failed .notEnoughDestination)

/-- The outcome of work, with the errors a caller of a writer sees. -/
def outcome {α : Type} : EStateM.Result (Halt Error) (CompressingWriter κ ω) α →
    Except (Halt IoError) α × CompressingWriter κ ω
  | .ok a c => (.ok a, c)
  | .error h c => (.error (h.map Error.toIoError), c)

/-- Compresses the beginning of `input`. Tells how much was used. -/
def write [Writer ω] (turns : Nat) (c : CompressingWriter κ ω) (input : Slice) :
    Except (Halt IoError) Nat × CompressingWriter κ ω :=
  outcome (writeChunk input turns c)

/-- Puts out all that was written so far. -/
def flush [Writer ω] (turns : Nat) (c : CompressingWriter κ ω) :
    Except (Halt IoError) Unit × CompressingWriter κ ω :=
  outcome (flushFrame turns c)

/-- Lets go of the writer: a frame that has not ended is ended if that can be done. -/
def release [Writer ω] (turns : Nat) (c : CompressingWriter κ ω) : CompressingWriter κ ω :=
  if c.session.isFinished then c
  else
    match finishFrame turns c with
    | .ok () c => c
    | .error _ c => c

/-- Ends the frame. A failure releases the writer. -/
def finish [Writer ω] (turns : Nat) (c : CompressingWriter κ ω) :
    Except (Halt Error) Unit × CompressingWriter κ ω :=
  match finishFrame turns c with
  | .ok () c => (.ok (), c)
  | .error h c => (.error h, c.release turns)

end CompressingWriter

namespace DecompressingWriter

variable {κ ω : Type} [Codec κ]

/-- Work on a decompressing writer. -/
abbrev Work (κ ω : Type) := EStateM (Halt Error) (DecompressingWriter κ ω)

/-- A new writer in front of `writer`. -/
def create (memory : Memory) (make : DecompressorOptions → Except Error κ)
    (o : DecompressorOptions) (writer : ω) (log : Log) :
    Except Error (DecompressingWriter κ ω) × Log :=
  match Session.decompressor memory make o log with
  | (.error e, log) => (.error e, log)
  | (.ok session, log) => (.ok ⟨writer, session⟩, log)

/-- An operation of the session. -/
def onSession {α : Type} (operation : Session κ → Except Error α × Session κ) : Work κ ω α :=
  fun d =>
    match d with
    | ⟨writer, session⟩ =>
      match operation session with
      | (.ok a, session) => .ok a ⟨writer, session⟩
      | (.error e, session) => .error (.failed e) ⟨writer, session⟩

/-- Pushes `input` and moves the output to the writer behind. -/
def pushThrough [Writer ω] (turns : Nat) (input : Slice) : Work κ ω Pushed := do
  let p ← onSession (Session.push input)
  let bytes ← onSession Session.drain
  fun d =>
    match d with
    | ⟨writer, session⟩ =>
      match writeAll turns writer (.ofBytes bytes) with
      | (.ok (), writer) => .ok p ⟨writer, session⟩
      | (.error h, writer) => .error (h.map .writeIo) ⟨writer, session⟩

/-- Pushes until some of `input` is used. Tells how much. -/
def writeChunk [Writer ω] (input : Slice) : (turns : Nat) → Work κ ω Nat
  | 0 => throw .outOfTurns
  | turns + 1 => do
    let p ← pushThrough turns input
    if p.consumed ≠ 0 ∨ input.isEmpty then return p.consumed
    else if p.full then writeChunk input turns
    else throw (.failed .corruptedSource)

/-- Pushes nothing until the codec leaves room in the destination. -/
def settle [Writer ω] : (turns : Nat) → Work κ ω Unit
  | 0 => throw .outOfTurns
  | turns + 1 => do
    let p ← pushThrough turns .empty
    if p.full then settle turns else return ()

/-- Flushes the writer behind. -/
def flushWriter [Writer ω] : Work κ ω Unit := fun d =>
  match d with
  | ⟨writer, session⟩ =>
    match Writer.flush writer with
    | (.ok (), writer) => .ok () ⟨writer, session⟩
    | (.error e, writer) => .error (.failed (.writeIo e)) ⟨writer, session⟩

/-- Decompresses the beginning of `input`. Tells how much was used. -/
def write [Writer ω] (turns : Nat) (d : DecompressingWriter κ ω) (input : Slice) :
    Except (Halt IoError) Nat × DecompressingWriter κ ω :=
  match writeChunk input turns d with
  | .ok n d => (.ok n, d)
  | .error h d => (.error (h.map Error.toIoError), d)

/-- Flushes the writer behind; the output has been written to it already. -/
def flush [Writer ω] (d : DecompressingWriter κ ω) :
    Except IoError Unit × DecompressingWriter κ ω :=
  match d with
  | ⟨writer, session⟩ =>
    match Writer.flush writer with
    | (r, writer) => (r, ⟨writer, session⟩)

/-- Writes what the codec holds back and checks that the last frame has ended. -/
def finish [Writer ω] (turns : Nat) (d : DecompressingWriter κ ω) :
    Except (Halt Error) Unit × DecompressingWriter κ ω :=
  let work : Work κ ω Unit := do
    settle turns
    onSession fun s => (s.endOfInput, s)
    flushWriter
    modify fun d => { d with session := d.session.close }
  match work d with
  | .ok () d => (.ok (), d)
  | .error h d => (.error h, d)

end DecompressingWriter

end Zstandard
