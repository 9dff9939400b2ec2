import Zstandard.Decoder
import Zstandard.Files
import Zstandard.Proofs.OpenFiles
import Zstandard.Proofs.RoundTrip
import Zstandard.Proofs.Upkeep

/-!
# File operations, for every pair of paths

A file operation makes its destination empty before it reads its source. So what it gives is what an
operation in memory gives for what the source has left by then (`Files.left`): its contents if the
destination is another file, and nothing if it is the same (`files_give_what_is_left`). Then the
contents are gone, and decompression that has put nothing in their place still succeeds
(`decompressing_in_place_loses_the_file`).
-/

namespace Zstandard

/-! ## A source that cannot be read -/

namespace Pump

variable {κ ε : Type} [Codec κ] [Reader ε] [Writer ε] {ends : ε}

/-- Where every read fails, the source of a new pump is not read. -/
theorem readSource_fails (hfails : ∀ room, ∃ e ends', Reader.read ends room = (.error e, ends')
      ∧ e.kind ≠ .interrupted) (codec : κ) (sourceLength destinationLength : Nat) (log : Log)
    (turns : Nat) :
    ∃ x p, readSource turns (new codec ends sourceLength destinationLength log) = .error x p := by
  obtain ⟨x, p, hrefill⟩ : ∃ x p,
      feedReader turns false (new codec ends sourceLength destinationLength log) = .error x p := by
    cases turns with
    | zero => exact ⟨_, _, rfl⟩
    | succ turns =>
        obtain ⟨x, b, ends', hrefill⟩ : ∃ x b ends',
            SourceBuffer.refill turns ⟨.empty, 0, sourceLength⟩ ends = (.error x, b, ends') := by
          have hcompact : SourceBuffer.compact ⟨.empty, 0, sourceLength⟩
              = ⟨.empty, 0, sourceLength⟩ := rfl
          by_cases hfull : (SourceBuffer.compact ⟨.empty, 0, sourceLength⟩).bytes.size
              = (SourceBuffer.compact ⟨.empty, 0, sourceLength⟩).capacity
          · exact ⟨_, _, _, SourceBuffer.refill_of_full hfull turns ends⟩
          · rw [SourceBuffer.refill_of_not_full hfull, hcompact]
            cases turns with
            | zero => exact ⟨_, _, _, rfl⟩
            | succ turns =>
                obtain ⟨e, ends', hread, he⟩ := hfails (sourceLength - ByteArray.empty.size)
                exact ⟨_, _, _, SourceBuffer.fill_of_failure hread he turns⟩
        have hmove : refill turns (new codec ends sourceLength destinationLength log)
            = .error x ⟨codec, ends', b, ⟨.empty, destinationLength⟩, 0, 0, log⟩ := by
          simp only [refill, new, hrefill]
        exact ⟨_, _, bind_of_error hmove _⟩
  exact ⟨x, p, bind_of_error hrefill _⟩

end Pump

namespace Stream

variable {κ ε : Type} [Codec κ] [Reader ε] [Writer ε] {memory : Memory} {turns : Nat} {ends : ε}
  {log : Log}

/-- A stream that begins with reading its source fails where every read does. -/
theorem run_fails (hfails : ∀ room, ∃ e ends', Reader.read ends room = (.error e, ends')
      ∧ e.kind ≠ .interrupted) {direction : Direction} {sourceLength destinationLength : Nat}
    {codec : κ} {rest : Unit → Pump.Work κ ε Unit} :
    (run memory direction sourceLength destinationLength (Pump.readSource turns >>= rest) codec ends
      log).result ≠ .ok () := by
  intro hok
  obtain ⟨p, log', hwork, -⟩ := run_ok hok
  obtain ⟨x, p', hread⟩ := Pump.readSource_fails hfails codec sourceLength destinationLength log'
    turns
  cases hwork.symm.trans (bind_of_error hread rest)

/-- A stream that succeeds has valid options, was granted its buffers and could read its source. -/
theorem compress_begins {make : CompressorOptions → Except Error κ} {o : CompressorOptions}
    (h : (compress memory make turns o ends log).result = .ok ()) :
    o.validate = .ok () ∧ memory.Serves o.sourceLength o.destinationLength
      ∧ ¬∀ room, ∃ e ends', Reader.read ends room = (.error e, ends')
        ∧ e.kind ≠ .interrupted := by
  unfold compress at h
  split at h
  · cases h
  · next hvalidate =>
    split at h
    · cases h
    · exact ⟨hvalidate, run_serves h, fun hfails => run_fails hfails h⟩

theorem decompress_begins {make : DecompressorOptions → Except Error κ} {o : DecompressorOptions}
    (h : (decompress memory make turns o ends log).result = .ok ()) :
    o.validate = .ok () ∧ ¬∀ room, ∃ e ends', Reader.read ends room = (.error e, ends')
      ∧ e.kind ≠ .interrupted := by
  unfold decompress at h
  split at h
  · cases h
  · next hvalidate =>
    refine ⟨hvalidate, fun hfails => ?_⟩
    split at h
    · cases h
    · exact run_fails hfails h

end Stream

/-! ## From the files to memory -/

namespace Files

variable {κ : Type} [Codec κ] {memory : Memory} {turns : Nat} {source destination : String}
  {files : FileSystem} {log : Log}

/-- A source that can be read after its destination was made is a file. -/
theorem contents_of_reads {node : Node} (hnode : files.node? source = some node)
    (hcreate : files.node? destination ≠ some .directory)
    (h : ¬∀ room, ∃ e o',
      Reader.read (Mirrors.opened files source destination) room = (.error e, o')
        ∧ e.kind ≠ .interrupted) : ∃ was, files.contents? source = some was := by
  cases node with
  | file was => exact ⟨was, FileSystem.contents?_eq_some_iff.mpr hnode⟩
  | directory =>
      -- a directory is not the destination, and reading it fails
      have hne : source ≠ destination := fun heq => hcreate (heq ▸ hnode)
      have hopened : (files.put destination .empty).node? source = some .directory :=
        (FileSystem.node?_put_of_ne hne files .empty).trans hnode
      refine absurd (fun room => ?_) h
      have hread : Reader.read (Mirrors.opened files source destination) room
          = (.error FileSystem.isADirectory, Mirrors.opened files source destination) := by
        show OpenFiles.read _ room = _
        simp only [OpenFiles.read, Mirrors.opened, hopened]
      exact ⟨_, _, hread, by decide⟩

/-- The way of what is left of the source from a slice into an array. -/
def inMemory (source destination : String) (was : ByteArray) : Passage :=
  .stream (Slice.ofBytes (left source destination was)) ByteArray.empty

theorem inMemory_brings (source destination : String) (was : ByteArray) :
    (inMemory source destination was).Brings (left source destination was).data.toList := by
  refine ⟨?_, accepts_bytes _⟩
  have hdelivers := delivers_slice (.ofBytes (left source destination was))
  rwa [Slice.toList_ofBytes] at hdelivers

/-- **Decompression of files that succeeds** has decompressed what the source had left, as from a
slice into an array, and the destination holds what the array has accepted. -/
theorem decompress_ok {make : DecompressorOptions → Except Error κ} {o : DecompressorOptions}
    {t : FileTransfer κ} (ht : decompress memory make turns source destination o files log = t)
    (hok : t.result = .ok ()) :
    ∃ was bytes log', files.contents? source = some was
      ∧ t.files.contents? destination = some bytes ∧ o.validate = .ok ()
      ∧ Settles ((inMemory source destination was).decompress memory make o log')
        (.ok bytes.data.toList) := by
  unfold decompress at ht
  split at ht
  · subst ht; cases hok
  next node hnode =>
  split at ht
  · subst ht; cases hok
  next files' hcreate =>
  obtain ⟨rfl, hdirectory⟩ := FileSystem.create_ok hcreate
  subst ht
  have hresult : (Stream.decompress memory make turns o (Mirrors.opened files source destination)
      (log.push (.fileOpened .decompress source destination))).result = .ok () := hok
  obtain ⟨ho, hreads⟩ := Stream.decompress_begins hresult
  obtain ⟨was, hwas⟩ := contents_of_reads hnode hdirectory hreads
  obtain ⟨t', hset, hbeside⟩ := Stream.decompress_alike (Mirrors.starts hwas) Mirrors.writesAlike
    (Mirrors.opened_memory destination hwas) (by rw [hresult]; nofun)
  obtain ⟨bytes, hbytes, -, haccepted⟩ := hbeside.ends.written
  refine ⟨was, bytes, log.push (.fileOpened .decompress source destination), hwas, hbytes, ho,
    hset.imp fun turns hturns => ?_⟩
  show (Stream.decompress memory make turns o (Mirrors.memory source destination was) _).result.map
    (fun _ => acceptedBy (Stream.decompress memory make turns o
      (Mirrors.memory source destination was) _).ends.calls) = _
  rw [hturns, hbeside.result, hresult, haccepted]
  rfl

/-- **Compression of files that succeeds** has compressed what the source had left, as from a slice
into an array, and the destination holds what the array has accepted. -/
theorem compress_ok {make : CompressorOptions → Except Error κ} {o : CompressorOptions}
    {t : FileTransfer κ} (ht : compress memory make turns source destination o files log = t)
    (hok : t.result = .ok ()) :
    ∃ was bytes pledged log', files.contents? source = some was
      ∧ t.files.contents? destination = some bytes ∧ pledge files source o = .ok pledged
      ∧ pledged.validate = .ok ()
      ∧ memory.Serves pledged.sourceLength pledged.destinationLength
      ∧ Settles ((inMemory source destination was).compress memory make pledged log')
        (.ok bytes.data.toList) := by
  unfold compress at ht
  split at ht
  · subst ht; cases hok
  next node hnode =>
  split at ht
  · subst ht; cases hok
  next pledged hpledge =>
  split at ht
  · subst ht; cases hok
  next files' hcreate =>
  obtain ⟨rfl, hdirectory⟩ := FileSystem.create_ok hcreate
  subst ht
  have hresult : (Stream.compress memory make turns pledged
      (Mirrors.opened files source destination)
      (log.push (.fileOpened .compress source destination))).result = .ok () := hok
  obtain ⟨ho, hserves, hreads⟩ := Stream.compress_begins hresult
  obtain ⟨was, hwas⟩ := contents_of_reads hnode hdirectory hreads
  obtain ⟨t', hset, hbeside⟩ := Stream.compress_alike (Mirrors.starts hwas) Mirrors.writesAlike
    (Mirrors.opened_memory destination hwas) (by rw [hresult]; nofun)
  obtain ⟨bytes, hbytes, -, haccepted⟩ := hbeside.ends.written
  refine ⟨was, bytes, pledged, log.push (.fileOpened .compress source destination), hwas, hbytes,
    hpledge, ho, hserves, hset.imp fun turns hturns => ?_⟩
  show (Stream.compress memory make turns pledged (Mirrors.memory source destination was)
      _).result.map
    (fun _ => acceptedBy (Stream.compress memory make turns pledged
      (Mirrors.memory source destination was) _).ends.calls) = _
  rw [hturns, hbeside.result, hresult, haccepted]
  rfl

end Files

/-! ## What is left alone -/

/-- No call of open files changes what stands under another path than the destination. -/
theorem OpenFiles.upheld_node {destination other : String} (hne : other ≠ destination)
    (node : Option Node) :
    Upheld fun o : OpenFiles => o.destination = destination ∧ o.files.node? other = node where
  read {o o' room result} h hread := by
    have hread : o.read room = (result, o') := hread
    unfold read at hread
    split at hread <;> cases hread <;> exact h
  write {o o' s result} h hwrite := by
    have hwrite : o.write s = (result, o') := hwrite
    obtain ⟨rfl, hnode⟩ := h
    unfold write at hwrite
    split at hwrite <;> cases hwrite
    · exact ⟨rfl, hnode⟩
    · exact ⟨rfl, (FileSystem.node?_put_of_ne hne _ _).trans hnode⟩
  flush {o o' result} h hflush := by
    cases hflush
    exact h

namespace Files

variable {κ : Type} [Codec κ] {source destination other : String}

/-- **Decompression of files changes nothing but its destination**, whatever it comes to. -/
theorem node?_decompress (hne : other ≠ destination) (memory : Memory)
    (make : DecompressorOptions → Except Error κ) (turns : Nat) (source : String)
    (o : DecompressorOptions) (files : FileSystem) (log : Log) :
    (decompress memory make turns source destination o files log).files.node? other
      = files.node? other := by
  unfold decompress
  split
  · rfl
  split
  · rfl
  next files' hcreate =>
  obtain ⟨rfl, -⟩ := FileSystem.create_ok hcreate
  exact (Stream.decompress_upholds (OpenFiles.upheld_node hne (files.node? other)) turns make o
    ⟨rfl, FileSystem.node?_put_of_ne hne files .empty⟩).2

/-- **Compression of files changes nothing but its destination**, whatever it comes to. -/
theorem node?_compress (hne : other ≠ destination) (memory : Memory)
    (make : CompressorOptions → Except Error κ) (turns : Nat) (source : String)
    (o : CompressorOptions) (files : FileSystem) (log : Log) :
    (compress memory make turns source destination o files log).files.node? other
      = files.node? other := by
  unfold compress
  split
  · rfl
  split
  · rfl
  split
  · rfl
  next files' hcreate =>
  obtain ⟨rfl, -⟩ := FileSystem.create_ok hcreate
  exact (Stream.compress_upholds (OpenFiles.upheld_node hne (files.node? other)) turns make _
    ⟨rfl, FileSystem.node?_put_of_ne hne files .empty⟩).2

end Files

/-! ## The contract -/

/-- A one-shot operation gives the array whose bytes the passage gives. -/
theorem OneShot.settles_of_passage {κ : Type} [Codec κ] {memory : Memory}
    {make : DecompressorOptions → Except Error κ} {o : DecompressorOptions} {data bytes : ByteArray}
    {log : Log}
    (h : Settles ((Passage.oneShot data).decompress memory make o log) (.ok bytes.data.toList)) :
    Settles (fun turns => (decompress memory make turns o data log).result) (.ok bytes) := by
  refine h.imp fun turns hturns => ?_
  have hturns : (decompress memory make turns o data log).result.map
      (fun bytes => bytes.data.toList) = .ok bytes.data.toList := hturns
  cases hresult : (decompress memory make turns o data log).result with
  | error x => rw [hresult] at hturns; cases hturns
  | ok given =>
      rw [hresult] at hturns
      exact congrArg Except.ok (ByteArray.ext (Array.toList_inj.mp (Except.ok.inj hturns)))

/-- File operations give what operations in memory give for what the source has left. -/
structure FilesGive {κ δ : Type} [Codec κ] [Codec δ] (make : CompressorOptions → Except Error κ)
    (make' : DecompressorOptions → Except Error δ) (memory : Memory) (files : FileSystem)
    (source destination : String) : Prop where
  /-- Where decompression succeeds, the destination holds what it gives in one shot, if memory is
  granted for that. -/
  decompressed : ∀ (turns : Nat) (o : DecompressorOptions) (log : Log)
    (t : FileTransfer (Framed δ)),
    Files.decompress memory (framing make') turns source destination o files log = t →
    t.result = .ok () →
    ∃ was bytes, files.contents? source = some was ∧ t.files.contents? destination = some bytes
      ∧ ∀ d : δ, make' o = .ok d →
        Regular { codec := d } (Files.left source destination was).data.toList →
        memory.Grows o.destinationLength bytes.size → ∀ log' : Log,
        Settles (fun turns => (OneShot.decompress memory (framing make') turns o
          (Files.left source destination was) log').result) (.ok bytes)
  /-- Where compression succeeds, the destination holds a frame that decompresses to it, whichever
  way it goes. -/
  compressed : ∀ (turns : Nat) (o : CompressorOptions) (log : Log) (t : FileTransfer κ),
    Files.compress memory make turns source destination o files log = t → t.result = .ok () →
    ∃ was frame pledged, files.contents? source = some was
      ∧ t.files.contents? destination = some frame ∧ Files.pledge files source o = .ok pledged
      ∧ ∀ (c : κ) (d : δ) (bound : Nat → Nat) (o' : DecompressorOptions),
        make pledged = .ok c → make' o' = .ok d → o'.validate = .ok () →
        Inverse c d (Files.left source destination was).data.toList bound →
        ∀ (p : Passage) (log' : Log), p.Brings frame.data.toList →
          p.Granted memory o'.sourceLength o'.destinationLength
            (Files.left source destination was).size →
          Settles (p.decompress memory (framing make') o' log')
            (.ok (Files.left source destination was).data.toList)
  /-- Whatever either comes to, it has changed nothing but its destination. -/
  untouched : ∀ other : String, other ≠ destination →
    (∀ (turns : Nat) (o : DecompressorOptions) (log : Log),
      (Files.decompress memory (framing make') turns source destination o files log).files.node?
        other = files.node? other)
    ∧ ∀ (turns : Nat) (o : CompressorOptions) (log : Log),
      (Files.compress memory make turns source destination o files log).files.node? other
        = files.node? other

/-- **File operations give what operations in memory give for what the source has left**, which is
its contents if the destination is another file, and nothing if it is the same. -/
theorem files_give_what_is_left {κ δ : Type} [Codec κ] [Codec δ]
    (make : CompressorOptions → Except Error κ) (make' : DecompressorOptions → Except Error δ)
    (memory : Memory) (files : FileSystem) (source destination : String) :
    FilesGive make make' memory files source destination where
  decompressed := by
    intro turns o log t ht hok
    obtain ⟨was, bytes, log₁, hwas, hbytes, ho, hstream⟩ := Files.decompress_ok ht hok
    refine ⟨was, bytes, hwas, hbytes, fun d hmake hregular hmemory log' => ?_⟩
    obtain ⟨turns', hturns'⟩ := hstream.reached
    -- what the stream has come to is what the bytes decode to, so the other way comes to it as well
    have hdecodes := Passage.decodesTo_of_ok hmake _
      (Files.inMemory_brings source destination was) hturns'
    have hsettles : Settles ((Passage.oneShot (Files.left source destination was)).decompress memory
        (framing make') o log') (.ok bytes.data.toList) :=
      Passage.settles_of_decodesTo ho hmake hregular
        (.oneShot (Files.left source destination was)) rfl hdecodes hmemory
    exact OneShot.settles_of_passage hsettles
  compressed := by
    intro turns o log t ht hok
    obtain ⟨was, frame, pledged, log₁, hwas, hframe, hpledge, ho, hserves, hstream⟩ :=
      Files.compress_ok ht hok
    refine ⟨was, frame, pledged, hwas, hframe, hpledge, ?_⟩
    intro c d bound o' hmake hmake' ho' hinverse p log' hp hmemory
    obtain ⟨calls, codec, he, hclosed, hsettles⟩ := Passage.compress_settles hinverse.toEncodes ho
      (Files.inMemory source destination was) hmake
      (Files.inMemory_brings source destination was) hserves log₁
    rw [Except.ok.inj (hstream.unique hsettles)] at hp
    exact Passage.decompress_restores (hinverse.restores he hclosed) ho' hmake' p hp hmemory log'
  untouched := fun other hne =>
    ⟨fun turns o log => Files.node?_decompress hne memory _ turns source o files log,
      fun turns o log => Files.node?_compress hne memory make turns source o files log⟩

/-! ### A pair in a file -/

namespace FilePair

def files : FileSystem := ⟨[("pair", .file Echo.pair)]⟩

/-- Decompresses the pair. -/
def decompress (destination : String) : FileTransfer (Framed Echo) :=
  Files.decompress .machine (framing (Echo.make .done)) 9 "pair" destination {} files #[]

/-- Compresses the pair. -/
def compress (destination : String) : FileTransfer Echo :=
  Files.compress .machine (Echo.make .done) 9 "pair" destination {} files #[]

end FilePair

/-- From one file to another, a pair comes out as it does in memory, and stays where it was. -/
theorem files_give_what_is_left_of_pair :
    (FilePair.decompress "copy").result = .ok () ∧ (FilePair.compress "copy").result = .ok ()
      ∧ (∃ bytes, (FilePair.decompress "copy").files.contents? "copy" = some bytes
        ∧ Settles (fun turns => (OneShot.decompress .machine (framing (Echo.make .done)) turns {}
            Echo.pair #[]).result) (.ok bytes))
      ∧ (∃ frame, (FilePair.compress "copy").files.contents? "copy" = some frame
        ∧ ∀ p : Passage, p.Brings frame.data.toList →
          Settles (p.decompress .machine (framing (Echo.make .done)) {} #[]) (.ok [1, 2]))
      ∧ (FilePair.decompress "copy").files.node? "pair" = some (.file Echo.pair)
      ∧ (FilePair.compress "copy").files.node? "pair" = some (.file Echo.pair) := by
  have hgive := files_give_what_is_left (Echo.make .done) (Echo.make .done) .machine
    FilePair.files "pair" "copy"
  obtain ⟨was, bytes, hwas, hbytes, hsettles⟩ := hgive.decompressed 9 {} #[] _ rfl rfl
  obtain ⟨was', frame, pledged, hwas', hframe, -, hback⟩ := hgive.compressed 9 {} #[] _ rfl rfl
  obtain rfl : Echo.pair = was := Option.some.inj hwas
  obtain rfl : Echo.pair = was' := Option.some.inj hwas'
  -- the pair has come out, and the machine has memory for it
  obtain rfl : Echo.pair = bytes := Option.some.inj hbytes
  have hgrows : Memory.machine.Grows ({} : DecompressorOptions).destinationLength Echo.pair.size :=
    .machine (by decide)
  obtain ⟨hdecompress, hcompress⟩ := hgive.untouched "pair" (by decide)
  exact ⟨rfl, rfl, ⟨_, hbytes, hsettles ⟨.done⟩ rfl Echo.regular hgrows #[]⟩,
    ⟨frame, hframe, fun p hp => hback ⟨.done⟩ ⟨.done⟩ _ {} rfl rfl rfl Echo.inverse p #[] hp
      (p.granted_machine (by decide) (by decide))⟩,
    (hdecompress 9 {} #[]).trans rfl, (hcompress 9 {} #[]).trans rfl⟩

namespace InPlace

def hello : ByteArray := ⟨#[0x68, 0x65, 0x6c, 0x6c, 0x6f]⟩

/-- A frame with one block, in which the word stands as it is. -/
def frame : ByteArray :=
  ⟨#[0x28, 0xb5, 0x2f, 0xfd, 0x20, 0x05, 0x29, 0x00, 0x00, 0x68, 0x65, 0x6c, 0x6c, 0x6f]⟩

/-- Decompresses the frame into its own file. -/
def decompress : FileTransfer FrameDecoder :=
  Files.decompress .machine FrameDecoder.create 9 "frame" "frame" {} ⟨[("frame", .file frame)]⟩ #[]

end InPlace

/-- **In place, the file is lost.** Decompressing a frame into its own file succeeds and leaves
nothing, while in memory its content comes out. So it is with a pair, and a codec with which all
other ways agree. -/
theorem decompressing_in_place_loses_the_file :
    (InPlace.decompress.result = .ok () ∧ InPlace.decompress.files.contents? "frame" = some .empty
      ∧ (OneShot.decompress .machine FrameDecoder.create 9 {} InPlace.frame #[]).result
        = .ok InPlace.hello)
    ∧ (FilePair.decompress "pair").result = .ok ()
      ∧ (FilePair.decompress "pair").files.contents? "pair" = some .empty
      ∧ Regular { codec := (⟨.done⟩ : Echo) } Echo.pair.data.toList
      ∧ Settles (fun turns => (OneShot.decompress .machine (framing (Echo.make .done)) turns {}
          Echo.pair #[]).result) (.ok Echo.pair) := by
  have hdecodes : DecodesTo { codec := (⟨.done⟩ : Echo) } Echo.pair.data.toList
      Echo.pair.data.toList false := Echo.decodesTo_iff.mpr ⟨rfl, rfl⟩
  have hgrows : Memory.machine.Grows ({} : DecompressorOptions).destinationLength Echo.pair.size :=
    .machine (by decide)
  have hsettles : Settles ((Passage.oneShot Echo.pair).decompress .machine
      (framing (Echo.make .done)) {} #[]) (.ok Echo.pair.data.toList) :=
    Passage.settles_of_decodesTo rfl
      (show Echo.make .done ({} : DecompressorOptions) = .ok ⟨.done⟩ from rfl) Echo.regular
      (.oneShot Echo.pair) rfl hdecodes hgrows
  exact ⟨⟨rfl, rfl, rfl⟩, rfl, rfl, Echo.regular, OneShot.settles_of_passage hsettles⟩

end Zstandard
