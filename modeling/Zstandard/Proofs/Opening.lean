import Zstandard.Adapter.Reading
import Zstandard.Adapter.Writing
import Zstandard.OneShot
import Zstandard.Stream
import Zstandard.Proofs.Pump
import Zstandard.Proofs.Session
import Zstandard.Proofs.Validity

/-!
# How an operation begins

Every way to compress or decompress checks its options, sets up a codec from them, and makes its
buffers. What has begun has been through all of that (`_ok`), and with options that are valid and
memory for the buffers, nothing of that fails (`_opens`).
-/

namespace Zstandard

/-! ## Options -/

theorem lengthOr_pos {recommended : Nat} (h : 0 < recommended) (length : UInt64) :
    0 < lengthOr recommended length := by
  unfold lengthOr
  split
  · exact h
  · next hne =>
    refine Nat.pos_of_ne_zero fun hz => hne ?_
    exact UInt64.toNat_inj.mp hz

/-- The library's setter refuses nothing that is in the interval. -/
theorem Parameter.refusal?_of_contains {p : Parameter} {v : Int}
    (h : p.interval.contains v = true) : p.refusal? v = none := by
  have hzero : p.interval = ⟨0, 0⟩ → v = 0 := by
    intro hi
    rw [hi, Interval.contains_iff] at h
    exact Int.le_antisymm h.2 h.1
  -- the intervals of the thread settings hold zero alone, which is all that is accepted of them
  unfold refusal?
  split
  iterate 4 rfl
  iterate 3 rw [if_pos (hzero rfl)]
  rw [if_pos (Or.inr h)]

/-- Parameters that are not refused are applied. -/
theorem applyParameters_of_accepted : ∀ (parameters : List (Parameter × Int32)) (log : Log),
    (∀ p v, (p, v) ∈ parameters → p.refusal? v.toInt = none) →
    ∃ log', applyParameters parameters log = (.ok (), log') := by
  intro parameters
  induction parameters with
  | nil => intro log _; exact ⟨log, rfl⟩
  | cons head rest ih =>
      intro log h
      obtain ⟨p, v⟩ := head
      obtain ⟨log', hrest⟩ := ih (log.push (.compressorParameter p v)) fun q w hq =>
        h q w (List.mem_cons_of_mem _ hq)
      refine ⟨log', ?_⟩
      simp only [applyParameters, h p v List.mem_cons_self, hrest]

namespace CompressorOptions

theorem sourceLength_pos (o : CompressorOptions) : 0 < o.sourceLength :=
  lengthOr_pos (by decide) _

theorem destinationLength_pos (o : CompressorOptions) : 0 < o.destinationLength :=
  lengthOr_pos (by decide) _

/-- A pledge changes no parameter. -/
theorem parameters_orPledge (o : CompressorOptions) (size : Nat) :
    (o.orPledge size).parameters = o.parameters := rfl

/-- A codec that was set up was made from the options. -/
theorem setUp_ok {κ : Type} {create : CompressorOptions → Except Error κ} {o : CompressorOptions}
    {log log' : Log} {codec : κ} (h : o.setUp create log = (.ok codec, log')) :
    create o = .ok codec := by
  unfold setUp at h
  split at h <;> simp only [Prod.mk.injEq] at h
  · simp at h
  · exact h.1

/-- The parameters of valid options are accepted. -/
theorem accepted_of_validate {o : CompressorOptions} (h : o.validate = .ok ()) (p : Parameter)
    (v : Int32) (hv : (p, v) ∈ o.parameters) : p.refusal? v.toInt = none := by
  unfold parameters at hv
  obtain ⟨q, -, hvalue⟩ := List.mem_filterMap.mp hv
  obtain ⟨w, hw, heq⟩ := Option.map_eq_some_iff.mp hvalue
  cases heq
  obtain ⟨i, hi, hcontains⟩ := validateWith_eq_ok_iff.mp h p w hw
  rw [(Limits.library_areWords.parameter p i hi).toInt hcontains]
  -- the library's interval is the one it accepts
  cases hi
  exact Parameter.refusal?_of_contains hcontains

/-- A codec is set up from options whose parameters are those of valid ones. -/
theorem setUp_opens {κ : Type} (create : CompressorOptions → Except Error κ)
    {o o' : CompressorOptions} (h : o.validate = .ok ()) (ho : o'.parameters = o.parameters)
    (log : Log) : ∃ log', o'.setUp create log = (create o', log') := by
  obtain ⟨log', happlied⟩ := applyParameters_of_accepted o'.parameters log fun p v hv =>
    accepted_of_validate h p v (ho ▸ hv)
  exact ⟨log', by simp only [setUp, happlied]⟩

end CompressorOptions

namespace DecompressorOptions

theorem sourceLength_pos (o : DecompressorOptions) : 0 < o.sourceLength :=
  lengthOr_pos (by decide) _

theorem destinationLength_pos (o : DecompressorOptions) : 0 < o.destinationLength :=
  lengthOr_pos (by decide) _

/-- A codec that was set up was made from the options. -/
theorem setUp_ok {κ : Type} {create : DecompressorOptions → Except Error κ}
    {o : DecompressorOptions} {log log' : Log} {codec : κ}
    (h : o.setUp create log = (.ok codec, log')) : create o = .ok codec := by
  unfold setUp at h
  split at h <;> simp only [Prod.mk.injEq] at h
  · simp at h
  · exact h.1

/-- A codec is set up from valid options. -/
theorem setUp_opens {κ : Type} (create : DecompressorOptions → Except Error κ)
    {o : DecompressorOptions} (h : o.validate = .ok ()) (log : Log) :
    ∃ log', o.setUp create log = (create o, log') := by
  unfold setUp windowLogWord
  cases hmax : o.windowLogMax with
  | none => exact ⟨log, rfl⟩
  | some v =>
      obtain ⟨i, hi, hcontains⟩ := validateWith_eq_ok_iff.mp h v hmax
      have hword := (Limits.library_areWords.windowLogMax i hi).toInt hcontains
      cases hi
      refine ⟨log.push (.windowLogMax (Int32.ofInt v.toNat)), ?_⟩
      simp only [Option.map_some, applyWindowLog, hword, hcontains, or_true, if_true]

end DecompressorOptions

/-! ## Streams -/

namespace Stream

variable {κ ε : Type} {memory : Memory} {direction : Direction}
  {sourceLength destinationLength : Nat} {work : Pump.Work κ ε Unit} {codec : κ} {ends : ε}
  {log : Log}

/-- A run that succeeds is work on a new pump that succeeds. -/
theorem run_ok (h : (run memory direction sourceLength destinationLength work codec ends log).result
      = .ok ()) :
    ∃ p log', work ⟨codec, ends, ⟨.empty, 0, sourceLength⟩, ⟨.empty, destinationLength⟩, 0, 0, log'⟩
        = .ok () p
      ∧ (run memory direction sourceLength destinationLength work codec ends log).codec
        = some p.codec
      ∧ (run memory direction sourceLength destinationLength work codec ends log).ends
        = p.ends := by
  unfold run at h ⊢
  split at h
  · cases h
  next pump hpump =>
  have hnew := Pump.create_eq hpump
  split at h
  · next p hwork =>
    refine ⟨p, log.push (.streamOpened direction sourceLength destinationLength), ?_, ?_⟩
    · rw [hnew] at hwork
      exact hwork
    · exact ⟨rfl, rfl⟩
  · cases h

/-- A run that succeeds was granted its buffers. -/
theorem run_serves
    (h : (run memory direction sourceLength destinationLength work codec ends log).result
      = .ok ()) : memory.Serves sourceLength destinationLength := by
  unfold run Pump.create SourceBuffer.create DestinationBuffer.create at h
  by_cases hsource : memory.grants sourceLength = true
  · by_cases hdestination : memory.grants destinationLength = true
    · exact ⟨hsource, hdestination⟩
    · simp [hsource, hdestination] at h
  · simp [hsource] at h

/-- What work on a new pump ensures of its codec holds of the codec of a run. -/
theorem run_ensures {Q : κ → Prop} (hcodec : Q codec)
    (hwork : ∀ log', Ensures work
      ⟨codec, ends, ⟨.empty, 0, sourceLength⟩, ⟨.empty, destinationLength⟩, 0, 0, log'⟩
      (fun _ p => Q p.codec) (fun _ p => Q p.codec)) {left : κ}
    (h : (run memory direction sourceLength destinationLength work codec ends log).codec
      = some left) : Q left := by
  unfold run at h
  split at h
  · cases h
    exact hcodec
  next pump hpump =>
  obtain rfl := Pump.create_eq hpump
  have hwork := hwork (log.push (.streamOpened direction sourceLength destinationLength))
  split at h
  · next p hok =>
    cases h
    exact hwork.of_ok hok
  · next x p herror =>
    cases h
    exact hwork.of_error herror

/-- With memory for its buffers, a run is work on a new pump. -/
theorem run_opens (hmemory : memory.Serves sourceLength destinationLength) :
    run memory direction sourceLength destinationLength work codec ends log
      = match work ⟨codec, ends, ⟨.empty, 0, sourceLength⟩, ⟨.empty, destinationLength⟩, 0, 0,
          log.push (.streamOpened direction sourceLength destinationLength)⟩ with
        | .ok () p => ⟨.ok (), some p.codec, p.ends, p.log⟩
        | .error h p => ⟨.error h, some p.codec, p.ends, p.log⟩ := by
  simp only [run, Pump.create, SourceBuffer.create, DestinationBuffer.create, hmemory.source,
    hmemory.destination, if_true]
  rfl

/-- With valid options and memory for its buffers, decompression is work on a new pump. -/
theorem decompress_opens [Codec κ] [Reader ε] [Writer ε]
    {make : DecompressorOptions → Except Error κ} {o : DecompressorOptions}
    (ho : o.validate = .ok ()) (hmemory : memory.Serves o.sourceLength o.destinationLength)
    (hmake : make o = .ok codec) (ends : ε) (log : Log) : ∃ log', ∀ turns,
      decompress memory make turns o ends log
        = match (do Pump.readSource turns; Pump.endOfInput; Pump.complete turns :
            Pump.Work κ ε Unit)
          ⟨codec, ends, ⟨.empty, 0, o.sourceLength⟩, ⟨.empty, o.destinationLength⟩, 0, 0, log'⟩ with
        | .ok () p => ⟨.ok (), some p.codec, p.ends, p.log⟩
        | .error h p => ⟨.error h, some p.codec, p.ends, p.log⟩ := by
  obtain ⟨log', hsetUp⟩ := DecompressorOptions.setUp_opens make ho log
  rw [hmake] at hsetUp
  refine ⟨log'.push (.streamOpened .decompress o.sourceLength o.destinationLength),
    fun turns => ?_⟩
  simp only [decompress, ho, hsetUp, run_opens hmemory]

/-- With valid options and memory for its buffers, compression is work on a new pump. -/
theorem compress_opens [Codec κ] [Reader ε] [Writer ε]
    {make : CompressorOptions → Except Error κ} {o : CompressorOptions}
    (ho : o.validate = .ok ()) (hmemory : memory.Serves o.sourceLength o.destinationLength)
    (hmake : make o = .ok codec) (ends : ε) (log : Log) : ∃ log', ∀ turns,
      compress memory make turns o ends log
        = match (do Pump.readSource turns; Pump.finish turns; Pump.complete turns :
            Pump.Work κ ε Unit)
          ⟨codec, ends, ⟨.empty, 0, o.sourceLength⟩, ⟨.empty, o.destinationLength⟩, 0, 0, log'⟩ with
        | .ok () p => ⟨.ok (), some p.codec, p.ends, p.log⟩
        | .error h p => ⟨.error h, some p.codec, p.ends, p.log⟩ := by
  obtain ⟨log', hsetUp⟩ := CompressorOptions.setUp_opens make ho rfl log
  rw [hmake] at hsetUp
  refine ⟨log'.push (.streamOpened .compress o.sourceLength o.destinationLength),
    fun turns => ?_⟩
  simp only [compress, ho, hsetUp, run_opens hmemory]

end Stream

/-! ## One-shot operations -/

namespace OneShot

variable {κ : Type} [Codec κ] {memory : Memory} {codec : κ} {direction : Direction}
  {unit sourceSize : Nat} {work : Work κ Unit} {log : Log}

omit [Codec κ] in
/-- A run that succeeds is work with a new destination that succeeds, and gives its output. -/
theorem run_ok {bytes : ByteArray}
    (h : (run memory direction unit sourceSize work codec log).result = .ok bytes) :
    ∃ o, work ⟨codec, ⟨.empty, unit, unit⟩, log⟩ = .ok () o ∧ bytes = o.destination.bytes
      ∧ (run memory direction unit sourceSize work codec log).codec = some o.codec := by
  unfold run at h ⊢
  split at h
  · cases h
  next destination hcreate =>
  obtain rfl := GrowableBuffer.create_eq hcreate
  split at h
  · next o hwork =>
    cases h
    exact ⟨o, hwork, rfl, rfl⟩
  · cases h

omit [Codec κ] in
/-- What work with a new destination ensures of its codec holds of the codec of a run. -/
theorem run_ensures {Q : κ → Prop} (hcodec : Q codec)
    (hwork : Ensures work ⟨codec, ⟨.empty, unit, unit⟩, log⟩ (fun _ o => Q o.codec)
      (fun _ o => Q o.codec)) {left : κ}
    (h : (run memory direction unit sourceSize work codec log).codec = some left) : Q left := by
  unfold run at h
  split at h
  · cases h
    exact hcodec
  next destination hcreate =>
  obtain rfl := GrowableBuffer.create_eq hcreate
  split at h
  · next o hok =>
    cases h
    exact hwork.of_ok hok
  · next x o herror =>
    cases h
    exact hwork.of_error herror

omit [Codec κ] in
/-- With memory for a unit, a run is work with a new destination. -/
theorem run_opens (hunit : memory.grants unit = true) :
    run memory direction unit sourceSize work codec log
      = match work ⟨codec, ⟨.empty, unit, unit⟩, log⟩ with
        | .ok () o => ⟨.ok o.destination.bytes, some o.codec,
            o.log.push (.converted direction sourceSize o.destination.bytes.size)⟩
        | .error h o => ⟨.error h, some o.codec, o.log⟩ := by
  have hcreate : GrowableBuffer.create memory unit = .ok ⟨.empty, unit, unit⟩ := if_pos hunit
  cases hwork : work ⟨codec, ⟨.empty, unit, unit⟩, log⟩ <;> simp only [run, hcreate, hwork]

/-- With valid options and memory for a unit, compression is work with a new destination. -/
theorem compress_opens {make : CompressorOptions → Except Error κ} {o : CompressorOptions}
    (ho : o.validate = .ok ()) (hunit : memory.grants o.destinationLength = true)
    (source : ByteArray) (hmake : make (o.orPledge source.size) = .ok codec) (log : Log) :
    ∃ log', ∀ turns, (compress memory make turns o source log).result
        = match (do feedAll memory turns (.ofBytes source); finish memory turns : Work κ Unit)
            ⟨codec, ⟨.empty, o.destinationLength, o.destinationLength⟩, log'⟩ with
          | .ok () o' => .ok o'.destination.bytes
          | .error h _ => .error h := by
  obtain ⟨log', hsetUp⟩ :=
    CompressorOptions.setUp_opens make ho (o.parameters_orPledge source.size) log
  rw [hmake] at hsetUp
  refine ⟨log', fun turns => ?_⟩
  cases hwork : (do feedAll memory turns (.ofBytes source); finish memory turns : Work κ Unit)
      ⟨codec, ⟨.empty, o.destinationLength, o.destinationLength⟩, log'⟩ with
  | ok _ o' =>
      simp only [compress, ho, hsetUp, run, GrowableBuffer.create, hunit, if_true, hwork]
  | error h o' =>
      simp only [compress, ho, hsetUp, run, GrowableBuffer.create, hunit, if_true, hwork]

/-- With valid options and memory for a unit, decompression is work with a new destination. -/
theorem decompress_opens {make : DecompressorOptions → Except Error κ} {o : DecompressorOptions}
    (ho : o.validate = .ok ()) (hunit : memory.grants o.destinationLength = true)
    (hmake : make o = .ok codec) (source : ByteArray) (log : Log) :
    ∃ log', ∀ turns, (decompress memory make turns o source log).result
        = match (do feedFrames memory turns (.ofBytes source); endOfInput : Work κ Unit)
            ⟨codec, ⟨.empty, o.destinationLength, o.destinationLength⟩, log'⟩ with
          | .ok () o' => .ok o'.destination.bytes
          | .error h _ => .error h := by
  obtain ⟨log', hsetUp⟩ := DecompressorOptions.setUp_opens make ho log
  rw [hmake] at hsetUp
  refine ⟨log', fun turns => ?_⟩
  cases hwork : (do feedFrames memory turns (.ofBytes source); endOfInput : Work κ Unit)
      ⟨codec, ⟨.empty, o.destinationLength, o.destinationLength⟩, log'⟩ with
  | ok _ o' =>
      simp only [decompress, ho, hsetUp, run, GrowableBuffer.create, hunit, if_true, hwork]
  | error h o' =>
      simp only [decompress, ho, hsetUp, run, GrowableBuffer.create, hunit, if_true, hwork]

end OneShot

/-! ## Sessions and what stands around them -/

section Compress

variable {κ : Type} {memory : Memory} {make : CompressorOptions → Except Error κ}
  {o : CompressorOptions} {log log' : Log}

/-- A session for compression is active, and holds nothing. -/
theorem Session.compressor_ok {session : Session κ}
    (h : Session.compressor memory make o log = (.ok session, log')) :
    ∃ start, make o = .ok start
      ∧ session = ⟨start, ⟨.empty, o.destinationLength⟩, .active⟩ := by
  unfold Session.compressor at h
  split at h
  · cases h
  split at h
  · cases h
  next codec log' hsetUp =>
  simp only [Prod.mk.injEq] at h
  exact ⟨codec, CompressorOptions.setUp_ok hsetUp, Session.create_eq h.1⟩

theorem Session.compressor_opens {start : κ} (ho : o.validate = .ok ())
    (hdestination : memory.grants o.destinationLength = true) (hmake : make o = .ok start)
    (log : Log) :
    ∃ log', Session.compressor memory make o log
      = (.ok ⟨start, ⟨.empty, o.destinationLength⟩, .active⟩, log') := by
  obtain ⟨log', hsetUp⟩ := CompressorOptions.setUp_opens make ho rfl log
  rw [hmake] at hsetUp
  refine ⟨log', ?_⟩
  simp only [Session.compressor, ho, hsetUp, Session.create, DestinationBuffer.create,
    hdestination, if_true]

/-- A session fails as the making of its codec does. -/
theorem Session.compressor_fails (memory : Memory) {e : Error} (ho : o.validate = .ok ())
    (hmake : make o = .error e) (log : Log) :
    ∃ log', Session.compressor memory make o log = (.error e, log') := by
  obtain ⟨log', hsetUp⟩ := CompressorOptions.setUp_opens make ho rfl log
  rw [hmake] at hsetUp
  exact ⟨log', by simp only [Session.compressor, ho, hsetUp]⟩

/-- A new writer around a new session. -/
theorem CompressingWriter.create_ok {ω : Type} {writer : ω} {c : CompressingWriter κ ω}
    (h : CompressingWriter.create memory make o writer log = (.ok c, log')) :
    ∃ start, make o = .ok start
      ∧ c = ⟨writer, ⟨start, ⟨.empty, o.destinationLength⟩, .active⟩⟩ := by
  unfold CompressingWriter.create at h
  split at h
  · cases h
  next session log'' hsession =>
  cases h
  obtain ⟨start, hmake, rfl⟩ := Session.compressor_ok hsession
  exact ⟨start, hmake, rfl⟩

theorem CompressingWriter.create_opens {ω : Type} {start : κ} (ho : o.validate = .ok ())
    (hdestination : memory.grants o.destinationLength = true) (hmake : make o = .ok start)
    (writer : ω) (log : Log) :
    ∃ log', CompressingWriter.create memory make o writer log
      = (.ok ⟨writer, ⟨start, ⟨.empty, o.destinationLength⟩, .active⟩⟩, log') := by
  obtain ⟨log', hsession⟩ := Session.compressor_opens ho hdestination hmake log
  exact ⟨log', by simp only [CompressingWriter.create, hsession]⟩

theorem CompressingWriter.create_fails {ω : Type} {e : Error} (ho : o.validate = .ok ())
    (hmake : make o = .error e) (writer : ω) (log : Log) :
    ∃ log', CompressingWriter.create memory make o writer log = (.error e, log') := by
  obtain ⟨log', hsession⟩ := Session.compressor_fails memory ho hmake log
  exact ⟨log', by simp only [CompressingWriter.create, hsession]⟩

/-- A new reader with an empty buffer and around a new session. -/
theorem CompressingReader.create_ok {ρ : Type} {reader : ρ} {c : CompressingReader κ ρ}
    (h : CompressingReader.create memory make o reader log = (.ok c, log')) :
    ∃ start, make o = .ok start
      ∧ c = ⟨reader, ⟨.empty, 0, o.sourceLength⟩,
        ⟨start, ⟨.empty, o.destinationLength⟩, .active⟩, .empty, false, false⟩ := by
  unfold CompressingReader.create at h
  split at h
  · cases h
  next source hsource =>
  split at h
  · cases h
  next session log'' hsession =>
  cases h
  obtain ⟨start, hmake, rfl⟩ := Session.compressor_ok hsession
  rw [SourceBuffer.create_eq hsource]
  exact ⟨start, hmake, rfl⟩

theorem CompressingReader.create_opens {ρ : Type} {start : κ} (ho : o.validate = .ok ())
    (hmemory : memory.Serves o.sourceLength o.destinationLength) (hmake : make o = .ok start)
    (reader : ρ) (log : Log) :
    ∃ log', CompressingReader.create memory make o reader log
      = (.ok ⟨reader, ⟨.empty, 0, o.sourceLength⟩,
        ⟨start, ⟨.empty, o.destinationLength⟩, .active⟩, .empty, false, false⟩, log') := by
  obtain ⟨log', hsession⟩ := Session.compressor_opens ho hmemory.destination hmake log
  refine ⟨log', ?_⟩
  simp only [CompressingReader.create, SourceBuffer.create, hmemory.source, if_true, hsession]

theorem CompressingReader.create_fails {ρ : Type} {e : Error} (ho : o.validate = .ok ())
    (hsource : memory.grants o.sourceLength = true) (hmake : make o = .error e) (reader : ρ)
    (log : Log) :
    ∃ log', CompressingReader.create memory make o reader log = (.error e, log') := by
  obtain ⟨log', hsession⟩ := Session.compressor_fails memory ho hmake log
  refine ⟨log', ?_⟩
  simp only [CompressingReader.create, SourceBuffer.create, hsource, if_true, hsession]

end Compress

section Decompress

variable {κ : Type} {memory : Memory} {make : DecompressorOptions → Except Error κ}
  {o : DecompressorOptions} {log log' : Log}

/-- A session for decompression is active, and holds nothing. -/
theorem Session.decompressor_ok {session : Session κ}
    (h : Session.decompressor memory make o log = (.ok session, log')) :
    ∃ start, make o = .ok start
      ∧ session = ⟨start, ⟨.empty, o.destinationLength⟩, .active⟩ := by
  unfold Session.decompressor at h
  split at h
  · cases h
  split at h
  · cases h
  next codec log' hsetUp =>
  simp only [Prod.mk.injEq] at h
  exact ⟨codec, DecompressorOptions.setUp_ok hsetUp, Session.create_eq h.1⟩

theorem Session.decompressor_opens {start : κ} (ho : o.validate = .ok ())
    (hdestination : memory.grants o.destinationLength = true) (hmake : make o = .ok start)
    (log : Log) :
    ∃ log', Session.decompressor memory make o log
      = (.ok ⟨start, ⟨.empty, o.destinationLength⟩, .active⟩, log') := by
  obtain ⟨log', hsetUp⟩ := DecompressorOptions.setUp_opens make ho log
  rw [hmake] at hsetUp
  refine ⟨log', ?_⟩
  simp only [Session.decompressor, ho, hsetUp, Session.create, DestinationBuffer.create,
    hdestination, if_true]

/-- A session fails as the making of its codec does. -/
theorem Session.decompressor_fails (memory : Memory) {e : Error} (ho : o.validate = .ok ())
    (hmake : make o = .error e) (log : Log) :
    ∃ log', Session.decompressor memory make o log = (.error e, log') := by
  obtain ⟨log', hsetUp⟩ := DecompressorOptions.setUp_opens make ho log
  rw [hmake] at hsetUp
  exact ⟨log', by simp only [Session.decompressor, ho, hsetUp]⟩

/-- A new writer around a new session. -/
theorem DecompressingWriter.create_ok {ω : Type} {writer : ω} {d : DecompressingWriter κ ω}
    (h : DecompressingWriter.create memory make o writer log = (.ok d, log')) :
    ∃ start, make o = .ok start
      ∧ d = ⟨writer, ⟨start, ⟨.empty, o.destinationLength⟩, .active⟩⟩ := by
  unfold DecompressingWriter.create at h
  split at h
  · cases h
  next session log'' hsession =>
  cases h
  obtain ⟨start, hmake, rfl⟩ := Session.decompressor_ok hsession
  exact ⟨start, hmake, rfl⟩

theorem DecompressingWriter.create_opens {ω : Type} {start : κ} (ho : o.validate = .ok ())
    (hdestination : memory.grants o.destinationLength = true) (hmake : make o = .ok start)
    (writer : ω) (log : Log) :
    ∃ log', DecompressingWriter.create memory make o writer log
      = (.ok ⟨writer, ⟨start, ⟨.empty, o.destinationLength⟩, .active⟩⟩, log') := by
  obtain ⟨log', hsession⟩ := Session.decompressor_opens ho hdestination hmake log
  exact ⟨log', by simp only [DecompressingWriter.create, hsession]⟩

theorem DecompressingWriter.create_fails {ω : Type} {e : Error} (ho : o.validate = .ok ())
    (hmake : make o = .error e) (writer : ω) (log : Log) :
    ∃ log', DecompressingWriter.create memory make o writer log = (.error e, log') := by
  obtain ⟨log', hsession⟩ := Session.decompressor_fails memory ho hmake log
  exact ⟨log', by simp only [DecompressingWriter.create, hsession]⟩

/-- A new reader with an empty buffer and around a new session. -/
theorem DecompressingReader.create_ok {ρ : Type} {reader : ρ} {d : DecompressingReader κ ρ}
    (h : DecompressingReader.create memory make o reader log = (.ok d, log')) :
    ∃ start, make o = .ok start
      ∧ d = ⟨reader, ⟨.empty, 0, o.sourceLength⟩,
        ⟨start, ⟨.empty, o.destinationLength⟩, .active⟩, .empty, false, false, false⟩ := by
  unfold DecompressingReader.create at h
  split at h
  · cases h
  next source hsource =>
  split at h
  · cases h
  next session log'' hsession =>
  cases h
  obtain ⟨start, hmake, rfl⟩ := Session.decompressor_ok hsession
  rw [SourceBuffer.create_eq hsource]
  exact ⟨start, hmake, rfl⟩

theorem DecompressingReader.create_opens {ρ : Type} {start : κ} (ho : o.validate = .ok ())
    (hmemory : memory.Serves o.sourceLength o.destinationLength) (hmake : make o = .ok start)
    (reader : ρ) (log : Log) :
    ∃ log', DecompressingReader.create memory make o reader log
      = (.ok ⟨reader, ⟨.empty, 0, o.sourceLength⟩,
        ⟨start, ⟨.empty, o.destinationLength⟩, .active⟩, .empty, false, false, false⟩, log') := by
  obtain ⟨log', hsession⟩ := Session.decompressor_opens ho hmemory.destination hmake log
  refine ⟨log', ?_⟩
  simp only [DecompressingReader.create, SourceBuffer.create, hmemory.source, if_true, hsession]

theorem DecompressingReader.create_fails {ρ : Type} {e : Error} (ho : o.validate = .ok ())
    (hsource : memory.grants o.sourceLength = true) (hmake : make o = .error e) (reader : ρ)
    (log : Log) :
    ∃ log', DecompressingReader.create memory make o reader log = (.error e, log') := by
  obtain ⟨log', hsession⟩ := Session.decompressor_fails memory ho hmake log
  refine ⟨log', ?_⟩
  simp only [DecompressingReader.create, SourceBuffer.create, hsource, if_true, hsession]

end Decompress

end Zstandard
