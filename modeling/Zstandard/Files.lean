import Zstandard.FileSystem
import Zstandard.Stream

/-!
# Files: from one path to another

A file operation opens its source, makes its destination empty, and streams the one into the
other. The size of the source is pledged for the frame, unless another is. The destination is
made empty before the options are looked at.
-/

namespace Zstandard

/-- What came of a file operation. -/
structure FileTransfer (κ : Type) where
  result : Except (Halt Error) Unit
  codec : Option κ
  files : FileSystem
  log : Log

namespace Files

variable {κ : Type} [Codec κ]

/-- The outcome of a stream operation on open files. -/
def outcome (t : Transfer κ OpenFiles) : FileTransfer κ := ⟨t.result, t.codec, t.ends.files, t.log⟩

/-- The options with the size of the file under `path` pledged, if none is. -/
def pledge (files : FileSystem) (path : String) (o : CompressorOptions) :
    Except IoError CompressorOptions :=
  match o.pledgedSize with
  | some _ => .ok o
  | none =>
    match files.sizeOf path with
    | .error e => .error e
    | .ok size => .ok (o.orPledge size)

/-- Compresses the file at `source` into a new file at `destination`. -/
def compress (memory : Memory) (create : CompressorOptions → Except Error κ) (turns : Nat)
    (source destination : String) (o : CompressorOptions) (files : FileSystem) (log : Log) :
    FileTransfer κ :=
  match files.node? source with
  | none => ⟨.error (.failed (.accessIo FileSystem.notFound)), none, files, log⟩
  | some _ =>
    match pledge files source o with
    | .error e => ⟨.error (.failed (.accessIo e)), none, files, log⟩
    | .ok o =>
      match files.create destination with
      | .error e => ⟨.error (.failed (.accessIo e)), none, files, log⟩
      | .ok files =>
        outcome <| Stream.compress memory create turns o ⟨files, source, 0, destination, 0⟩
          (log.push (.fileOpened .compress source destination))

/-- Decompresses the file at `source` into a new file at `destination`. -/
def decompress (memory : Memory) (create : DecompressorOptions → Except Error κ) (turns : Nat)
    (source destination : String) (o : DecompressorOptions) (files : FileSystem) (log : Log) :
    FileTransfer κ :=
  match files.node? source with
  | none => ⟨.error (.failed (.accessIo FileSystem.notFound)), none, files, log⟩
  | some _ =>
    match files.create destination with
    | .error e => ⟨.error (.failed (.accessIo e)), none, files, log⟩
    | .ok files =>
      outcome <| Stream.decompress memory create turns o ⟨files, source, 0, destination, 0⟩
        (log.push (.fileOpened .decompress source destination))

end Files

end Zstandard
