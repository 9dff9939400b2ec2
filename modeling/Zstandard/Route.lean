import Zstandard.Adapter.Reading
import Zstandard.Adapter.Writing
import Zstandard.Collector
import Zstandard.OneShot
import Zstandard.Stream

/-!
# Routes: the ways to convert a whole array

The same array can be converted in one shot, through a stream, by a session, through a writer or
through a reader. A session and a writer are given the array in chunks; a reader is read in
chunks. A route is one of these ways, from an array to an array.
-/

namespace Zstandard

/-- A way to convert a whole array. -/
inductive Route where
  | oneShot
  | stream
  | session
  | writer
  | reader
  deriving Repr, DecidableEq, Inhabited

namespace Route

variable {κ : Type} [Codec κ]

/-- Pieces of `size` bytes of `data`, of which the last may be shorter. -/
def chunksOf (size : Nat) (data : ByteArray) : List Slice :=
  (List.range ((data.size + size - 1) / size)).map fun i =>
    ((Slice.ofBytes data).drop (i * size)).take size

/-- The result of a stream operation into an array. -/
def ofTransfer (t : Transfer κ (Ends Slice ByteArray)) : Except (Halt Error) ByteArray × Log :=
  (t.result.map fun _ => t.ends.writer, t.log)

/-- Writes slices one after another. -/
def writeEach {ω : Type} (write : ω → Slice → Except (Halt IoError) Nat × ω) (turns : Nat) :
    ω → List Slice → Except (Halt Error) ω
  | w, [] => .ok w
  | w, s :: rest =>
    match writeAllBy write turns w s with
    | (.ok (), w) => writeEach write turns w rest
    | (.error h, _) => .error (h.map Error.ofIoError)

/-- What reads give until there is no more. -/
def readEach {ρ : Type} (read : ρ → (room : Nat) → Except (Halt IoError) ByteArray × ρ)
    (turns chunk : Nat) (r : ρ) : Except (Halt Error) ByteArray :=
  match readAllBy read chunk turns r .empty with
  | (.ok (), _, out) => .ok out
  | (.error h, _, _) => .error (h.map Error.ofIoError)

/-- Compresses `data` into one frame. -/
def compress (route : Route) (memory : Memory) (make : CompressorOptions → Except Error κ)
    (turns chunk : Nat) (o : CompressorOptions) (data : ByteArray) (log : Log) :
    Except (Halt Error) ByteArray × Log :=
  match route with
  | .oneShot =>
    let c := OneShot.compress memory make turns o data log
    (c.result, c.log)
  | .stream =>
    let ends : Ends Slice ByteArray := ⟨.ofBytes data, .empty⟩
    ofTransfer (Stream.compress memory make turns o ends log)
  | .session =>
    match Session.compressor memory make o log with
    | (.error e, log) => (.error (.failed e), log)
    | (.ok opened, log) =>
      let work : Collector.Work κ Unit := do
        for part in chunksOf chunk data do Collector.pushAll turns part
        Collector.finish turns
      (Collector.run work opened, log)
  | .writer =>
    match CompressingWriter.create memory make o ByteArray.empty log with
    | (.error e, log) => (.error (.failed e), log)
    | (.ok c, log) =>
      match writeEach (CompressingWriter.write turns) turns c (chunksOf chunk data) with
      | .error h => (.error h, log)
      | .ok c =>
        match c.finish turns with
        | (.ok (), c) => (.ok c.writer, log)
        | (.error h, _) => (.error h, log)
  | .reader =>
    match CompressingReader.create memory make o (Slice.ofBytes data) log with
    | (.error e, log) => (.error (.failed e), log)
    | (.ok c, log) => (readEach (fun c room => c.read turns room) turns chunk c, log)

/-- Decompresses the frames in `data`. -/
def decompress (route : Route) (memory : Memory) (make : DecompressorOptions → Except Error κ)
    (turns chunk : Nat) (o : DecompressorOptions) (data : ByteArray) (log : Log) :
    Except (Halt Error) ByteArray × Log :=
  match route with
  | .oneShot =>
    let c := OneShot.decompress memory make turns o data log
    (c.result, c.log)
  | .stream =>
    let ends : Ends Slice ByteArray := ⟨.ofBytes data, .empty⟩
    ofTransfer (Stream.decompress memory make turns o ends log)
  | .session =>
    match Session.decompressor memory make o log with
    | (.error e, log) => (.error (.failed e), log)
    | (.ok opened, log) =>
      let work : Collector.Work κ Unit := do
        for part in chunksOf chunk data do Collector.pushThrough turns part
        Collector.endOfInput
      (Collector.run work opened, log)
  | .writer =>
    match DecompressingWriter.create memory make o ByteArray.empty log with
    | (.error e, log) => (.error (.failed e), log)
    | (.ok d, log) =>
      match writeEach (DecompressingWriter.write turns) turns d (chunksOf chunk data) with
      | .error h => (.error h, log)
      | .ok d =>
        match d.finish turns with
        | (.ok (), d) => (.ok d.writer, log)
        | (.error h, _) => (.error h, log)
  | .reader =>
    match DecompressingReader.create memory make o (Slice.ofBytes data) log with
    | (.error e, log) => (.error (.failed e), log)
    | (.ok d, log) => (readEach (fun d room => d.read turns room) turns chunk d, log)

end Route

end Zstandard
