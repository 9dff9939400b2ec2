import Zstandard.Adapter.Reading
import Zstandard.Adapter.Writing
import Zstandard.Decoder
import Zstandard.Encoder
import Zstandard.Files
import Zstandard.OneShot
import Zstandard.Proofs.OpenFiles

/-!
# Options that are refused

Whatever is begun with options that are not valid is refused, and no codec is made for it. Streams,
one-shot operations, sessions and what stands around sessions look at their options first: ends that
they were given have seen no call.

A file operation looks at its options last, when its files are open. So a refusal finds the
destination made empty, unless there is no source or no room for a destination
(`FileRefused.emptied`), and what stood there before is lost
(`refused_options_empty_the_destination`). No other file is touched.
-/

namespace Zstandard

/-- A pledge makes options no more and no less valid. -/
theorem CompressorOptions.validate_orPledge (o : CompressorOptions) (size : Nat) :
    (o.orPledge size).validate = o.validate := rfl

/-! ## File operations -/

/-- What a file operation has come to whose options are refused with `e`. -/
structure FileRefused {κ : Type} (files : FileSystem) (source destination : String) (e : Error)
    (t : FileTransfer κ) : Prop where
  /-- It has failed with the refusal, or before the options were looked at. -/
  failed : ∃ x, t.result = .error (.failed x) ∧ (x = e ∨ ∃ cause, x = .accessIo cause)
  /-- No codec was made. -/
  codec : t.codec = none
  /-- No other file than the destination is touched, -/
  others : ∀ other, other ≠ destination → t.files.node? other = files.node? other
  /-- and neither is the destination without a source or room for it, -/
  kept : files.node? source = none ∨ (∃ cause, files.create destination = .error cause) →
    t.files = files
  /-- but otherwise it is empty by now. -/
  emptied : ∀ node files', files.node? source = some node → files.create destination = .ok files' →
    t.result = .error (.failed e) ∧ t.files = files'

namespace FileRefused

variable {κ : Type} {files files' : FileSystem} {source destination : String} {e : Error}
  {log : Log}

/-- Without a source, nothing is touched. -/
theorem of_no_source (h : files.node? source = none) :
    FileRefused files source destination e
      (⟨.error (.failed (.accessIo FileSystem.notFound)), none, files, log⟩ : FileTransfer κ) where
  failed := ⟨_, rfl, .inr ⟨_, rfl⟩⟩
  codec := rfl
  others _ _ := rfl
  kept _ := rfl
  emptied node files' hnode _ := by
    rw [h] at hnode
    cases hnode

/-- Without room for the destination, nothing is touched. -/
theorem of_no_room {cause : IoError} (h : files.create destination = .error cause) :
    FileRefused files source destination e
      (⟨.error (.failed (.accessIo cause)), none, files, log⟩ : FileTransfer κ) where
  failed := ⟨_, rfl, .inr ⟨_, rfl⟩⟩
  codec := rfl
  others _ _ := rfl
  kept _ := rfl
  emptied node files' _ hcreate := by
    rw [h] at hcreate
    cases hcreate

/-- Once the files are open, the destination is empty. -/
theorem of_created {node : Node} (hsource : files.node? source = some node)
    (h : files.create destination = .ok files') :
    FileRefused files source destination e
      (⟨.error (.failed e), none, files', log⟩ : FileTransfer κ) where
  failed := ⟨_, rfl, .inl rfl⟩
  codec := rfl
  others other hne := by
    obtain ⟨rfl, -⟩ := FileSystem.create_ok h
    exact FileSystem.node?_put_of_ne hne files .empty
  kept hnone := by
    rcases hnone with hnone | ⟨cause, hcause⟩
    · rw [hsource] at hnone
      cases hnone
    · rw [h] at hcause
      cases hcause
  emptied _ _ _ hcreate := by
    rw [h] at hcreate
    cases hcreate
    exact ⟨rfl, rfl⟩

end FileRefused

namespace Files

variable {κ : Type} [Codec κ] {e : Error}

/-- A pledge of the size of a source that is there changes nothing but the pledge. -/
theorem pledge_of_some {files : FileSystem} {source : String} {node : Node}
    (h : files.node? source = some node) (o : CompressorOptions) :
    ∃ pledged, pledge files source o = .ok pledged ∧ pledged.validate = o.validate := by
  unfold pledge
  split
  · exact ⟨o, rfl, rfl⟩
  · -- every node has a size
    have hsize : ∃ size, files.sizeOf source = .ok size := by
      unfold FileSystem.sizeOf
      rw [h]
      cases node with
      | file contents => exact ⟨_, rfl⟩
      | directory => exact ⟨_, rfl⟩
    obtain ⟨size, hsize⟩ := hsize
    rw [hsize]
    exact ⟨_, rfl, o.validate_orPledge size⟩

theorem compress_refused {o : CompressorOptions} (h : o.validate = .error e) (memory : Memory)
    (make : CompressorOptions → Except Error κ) (turns : Nat) (source destination : String)
    (files : FileSystem) (log : Log) :
    FileRefused files source destination e
      (compress memory make turns source destination o files log) := by
  unfold compress
  cases hsource : files.node? source with
  | none => exact .of_no_source hsource
  | some node =>
      obtain ⟨pledged, hpledge, hvalidate⟩ := pledge_of_some hsource o
      rw [h] at hvalidate
      simp only [hpledge]
      cases hcreate : files.create destination with
      | error cause => exact .of_no_room hcreate
      | ok files' =>
          simp only [outcome, Stream.compress, hvalidate]
          exact .of_created hsource hcreate

theorem decompress_refused {o : DecompressorOptions} (h : o.validate = .error e) (memory : Memory)
    (make : DecompressorOptions → Except Error κ) (turns : Nat) (source destination : String)
    (files : FileSystem) (log : Log) :
    FileRefused files source destination e
      (decompress memory make turns source destination o files log) := by
  unfold decompress
  cases hsource : files.node? source with
  | none => exact .of_no_source hsource
  | some node =>
      cases hcreate : files.create destination with
      | error cause => exact .of_no_room hcreate
      | ok files' =>
          simp only [outcome, Stream.decompress, h]
          exact .of_created hsource hcreate

end Files

/-! ## Every way to begin -/

/-- An attempt to make something over a reader comes to nothing: options are refused with `e`, or
there was no memory for the source before. -/
def NotMade {α : Type} (e : Error) (log : Log) (attempt : Except Error α × Log) : Prop :=
  attempt = (.error e, log) ∨ attempt = (.error .allocateFailed, log)

/-- No way to compress begins with the options `o`: they are refused with `e`. -/
structure CompressionRefused (κ : Type) [Codec κ] (memory : Memory) (o : CompressorOptions)
    (e : Error) : Prop where
  /-- A stream makes no codec, and no call of its ends. -/
  stream : ∀ {ε : Type} [Reader ε] [Writer ε] (make : CompressorOptions → Except Error κ)
    (turns : Nat) (ends : ε) (log : Log),
    Stream.compress memory make turns o ends log = ⟨.error (.failed e), none, ends, log⟩
  oneShot : ∀ (make : CompressorOptions → Except Error κ) (turns : Nat) (source : ByteArray)
    (log : Log), OneShot.compress memory make turns o source log = ⟨.error (.failed e), none, log⟩
  session : ∀ (make : CompressorOptions → Except Error κ) (log : Log),
    Session.compressor memory make o log = (.error e, log)
  writer : ∀ {ω : Type} (make : CompressorOptions → Except Error κ) (writer : ω) (log : Log),
    CompressingWriter.create memory make o writer log = (.error e, log)
  reader : ∀ {ρ : Type} (make : CompressorOptions → Except Error κ) (reader : ρ) (log : Log),
    NotMade e log (CompressingReader.create memory make o reader log)
  files : ∀ (make : CompressorOptions → Except Error κ) (turns : Nat)
    (source destination : String) (files : FileSystem) (log : Log),
    FileRefused files source destination e
      (Files.compress memory make turns source destination o files log)

/-- No way to decompress begins with the options `o`: they are refused with `e`. -/
structure DecompressionRefused (κ : Type) [Codec κ] (memory : Memory) (o : DecompressorOptions)
    (e : Error) : Prop where
  /-- A stream makes no codec, and no call of its ends. -/
  stream : ∀ {ε : Type} [Reader ε] [Writer ε] (make : DecompressorOptions → Except Error κ)
    (turns : Nat) (ends : ε) (log : Log),
    Stream.decompress memory make turns o ends log = ⟨.error (.failed e), none, ends, log⟩
  oneShot : ∀ (make : DecompressorOptions → Except Error κ) (turns : Nat) (source : ByteArray)
    (log : Log), OneShot.decompress memory make turns o source log = ⟨.error (.failed e), none, log⟩
  session : ∀ (make : DecompressorOptions → Except Error κ) (log : Log),
    Session.decompressor memory make o log = (.error e, log)
  writer : ∀ {ω : Type} (make : DecompressorOptions → Except Error κ) (writer : ω) (log : Log),
    DecompressingWriter.create memory make o writer log = (.error e, log)
  reader : ∀ {ρ : Type} (make : DecompressorOptions → Except Error κ) (reader : ρ) (log : Log),
    NotMade e log (DecompressingReader.create memory make o reader log)
  files : ∀ (make : DecompressorOptions → Except Error κ) (turns : Nat)
    (source destination : String) (files : FileSystem) (log : Log),
    FileRefused files source destination e
      (Files.decompress memory make turns source destination o files log)

section Sessions

variable {κ : Type} {memory : Memory} {e : Error}

theorem Session.compressor_refused {o : CompressorOptions} (h : o.validate = .error e)
    (make : CompressorOptions → Except Error κ) (log : Log) :
    Session.compressor memory make o log = (.error e, log) := by
  simp only [Session.compressor, h]

theorem Session.decompressor_refused {o : DecompressorOptions} (h : o.validate = .error e)
    (make : DecompressorOptions → Except Error κ) (log : Log) :
    Session.decompressor memory make o log = (.error e, log) := by
  simp only [Session.decompressor, h]

/-- A reader makes its source buffer before its session. -/
theorem CompressingReader.create_refused {ρ : Type} {o : CompressorOptions}
    (h : o.validate = .error e) (make : CompressorOptions → Except Error κ) (reader : ρ)
    (log : Log) : NotMade e log (CompressingReader.create memory make o reader log) := by
  unfold CompressingReader.create SourceBuffer.create
  by_cases hm : memory.grants o.sourceLength = true
  · refine .inl ?_
    simp only [if_pos hm, Session.compressor_refused h]
  · exact .inr (by simp only [if_neg hm])

theorem DecompressingReader.create_refused {ρ : Type} {o : DecompressorOptions}
    (h : o.validate = .error e) (make : DecompressorOptions → Except Error κ) (reader : ρ)
    (log : Log) : NotMade e log (DecompressingReader.create memory make o reader log) := by
  unfold DecompressingReader.create SourceBuffer.create
  by_cases hm : memory.grants o.sourceLength = true
  · refine .inl ?_
    simp only [if_pos hm, Session.decompressor_refused h]
  · exact .inr (by simp only [if_neg hm])

end Sessions

/-- **Invalid options are refused**, whatever is begun with them. No codec is made, no reader is
read and no writer written to; of the files, only the destination of a file operation is touched,
which is made empty before. -/
theorem invalid_options_are_refused {κ δ : Type} [Codec κ] [Codec δ] (memory : Memory) :
    (∀ (o : CompressorOptions) (e : Error), o.validate = .error e →
      CompressionRefused κ memory o e)
    ∧ ∀ (o : DecompressorOptions) (e : Error), o.validate = .error e →
      DecompressionRefused δ memory o e := by
  refine ⟨fun o e h => ?_, fun o e h => ?_⟩
  · exact {
      stream := fun make turns ends log => by simp only [Stream.compress, h]
      oneShot := fun make turns source log => by simp only [OneShot.compress, h]
      session := Session.compressor_refused h
      writer := fun make writer log => by
        simp only [CompressingWriter.create, Session.compressor_refused h]
      reader := CompressingReader.create_refused h
      files := Files.compress_refused h memory }
  · exact {
      stream := fun make turns ends log => by simp only [Stream.decompress, h]
      oneShot := fun make turns source log => by simp only [OneShot.decompress, h]
      session := Session.decompressor_refused h
      writer := fun make writer log => by
        simp only [DecompressingWriter.create, Session.decompressor_refused h]
      reader := DecompressingReader.create_refused h
      files := Files.decompress_refused h memory }

/-! ### A window that is too small -/

namespace SmallWindow

/-- Options with a window below all limits. -/
def options : CompressorOptions := { windowLog := some 1 }

/-- The same for decompression. -/
def options' : DecompressorOptions := { windowLogMax := some 1 }

def refusal : Error := .validateFailed "invalid window log"

def refusal' : Error := .validateFailed "invalid window log max"

def abc : ByteArray := ⟨#[0x61, 0x62, 0x63]⟩

def kept : ByteArray := ⟨#[0x6b, 0x65, 0x70, 0x74]⟩

/-- A source, and a file that stands where the destination is to be. -/
def files : FileSystem := ⟨[("source", .file abc), ("out", .file kept)]⟩

def compress (source : String) : FileTransfer Encoder :=
  Files.compress .machine Encoder.create 9 source "out" options files #[]

def decompress (source : String) : FileTransfer FrameDecoder :=
  Files.decompress .machine FrameDecoder.create 9 source "out" options' files #[]

end SmallWindow

/-- The window is refused; without a source, the file that stands at the destination is kept. -/
theorem invalid_options_are_refused_for_small_window :
    SmallWindow.options.validate = .error SmallWindow.refusal
      ∧ SmallWindow.options'.validate = .error SmallWindow.refusal'
      ∧ (Stream.compress .machine Encoder.create 9 SmallWindow.options
          (⟨.ofBytes SmallWindow.abc, .empty⟩ : Ends Slice ByteArray) #[]).result
        = .error (.failed SmallWindow.refusal)
      ∧ (SmallWindow.compress "missing").files = SmallWindow.files
      ∧ (SmallWindow.decompress "missing").files = SmallWindow.files := by
  obtain ⟨hcompress, hdecompress⟩ :=
    invalid_options_are_refused (κ := Encoder) (δ := FrameDecoder) .machine
  have h := hcompress SmallWindow.options SmallWindow.refusal rfl
  have h' := hdecompress SmallWindow.options' SmallWindow.refusal' rfl
  refine ⟨rfl, rfl, ?_, ?_, ?_⟩
  · rw [h.stream]
  · exact (h.files Encoder.create 9 "missing" "out" SmallWindow.files #[]).kept (.inl rfl)
  · exact (h'.files FrameDecoder.create 9 "missing" "out" SmallWindow.files #[]).kept (.inl rfl)

/-- **Refused options empty the destination.** With a source, the file that stands at the
destination is lost, although nothing was compressed or decompressed into it. -/
theorem refused_options_empty_the_destination :
    SmallWindow.files.contents? "out" = some SmallWindow.kept
      ∧ SmallWindow.options.validate = .error SmallWindow.refusal
      ∧ (SmallWindow.compress "source").result = .error (.failed SmallWindow.refusal)
      ∧ (SmallWindow.compress "source").files.contents? "out" = some .empty
      ∧ SmallWindow.options'.validate = .error SmallWindow.refusal'
      ∧ (SmallWindow.decompress "source").result = .error (.failed SmallWindow.refusal')
      ∧ (SmallWindow.decompress "source").files.contents? "out" = some .empty :=
  ⟨rfl, rfl, rfl, rfl, rfl, rfl, rfl⟩

end Zstandard
