import Zstandard.Proofs.OneShotThrift
import Zstandard.Proofs.PumpThrift
import Zstandard.Proofs.ReaderThrift
import Zstandard.Proofs.Unstuck
import Zstandard.Proofs.WriterThrift

/-!
# No driver spins

A codec may do nothing for ever. A stream, a one-shot operation and a decompressing reader that is
read out make no more steps of it than they can pay for (`NeverSpins`), and a call of a
decompressing writer makes one step more than it puts out bytes (`EndsSoon`). So each of them
returns, unless there is no end to what its codec puts out. The headline is `drivers_never_spin`.
-/

namespace Zstandard

/-! ## Streams and one-shot operations -/

/-- What is seen of a stream. -/
def Transfer.sight {κ ε : Type} (record : κ → List StepCall) (t : Transfer κ (Observed ε)) :
    Sight Error Unit where
  result := t.result
  received := receivedBy t.ends.calls
  steps := (t.codec.map record).getD []
  interruptions := Zstandard.interruptions t.ends.calls

/-- What is seen of a one-shot operation, which has all of its source from the start. -/
def Conversion.sight {κ : Type} (record : κ → List StepCall) (source : ByteArray)
    (c : Conversion κ) : Sight Error ByteArray where
  result := c.result
  received := source.data.toList
  steps := (c.codec.map record).getD []
  interruptions := 0

/-- A run that has failed before there was a step is prudent. -/
theorem prudent_of_no_steps {ε α : Type} {turns : Nat} {s : Sight ε α} (hsteps : s.steps = [])
    (hresult : s.result ≠ .error .outOfTurns) : Prudent turns s :=
  ⟨by rw [hsteps]; exact each_nil, fun hcut => absurd hcut hresult⟩

section Runs

variable {κ : Type} [Codec κ] {memory : Memory} {record : κ → List StepCall} {codec : κ}
  {turns : Nat} {log : Log}

/-- Work on a new pump that is paid for makes a run prudent. -/
theorem Stream.run_prudent {ε : Type} {direction : Direction}
    {sourceLength destinationLength : Nat} {work : Pump.Work κ (Observed ε) Unit} {ends : ε}
    (htells : Tells record codec)
    (hwork : ∀ log', Ensures work
      ⟨codec, .new ends, ⟨.empty, 0, sourceLength⟩, ⟨.empty, destinationLength⟩, 0, 0, log'⟩
      (fun _ p => ∃ calls, Pump.Paid codec calls p)
      (fun x p => Ceased (Pump.Spends codec) (turns - 1) x p)) :
    Prudent turns ((run memory direction sourceLength destinationLength work codec
      (.new ends) log).sight record) := by
  have hnew := hwork (log.push (.streamOpened direction sourceLength destinationLength))
  unfold run
  split
  · exact prudent_of_no_steps (htells [] codec .nil) (by simp [Transfer.sight])
  next pump hcreate =>
  obtain rfl := Pump.create_eq hcreate
  split
  · next p hw =>
    obtain ⟨calls, hpaid⟩ := hnew.of_ok hw
    refine ⟨?_, by simp [Transfer.sight]⟩
    show Each (Thrifty (receivedBy p.ends.calls)) (record p.codec)
    rw [htells _ _ hpaid.steps]
    exact hpaid.thrifty
  · next x p hw =>
    obtain ⟨_, ⟨calls, hpaid, rfl⟩, hdue⟩ := hnew.of_error hw
    have hrecord := htells _ _ hpaid.steps
    constructor
    · show Each (Thrifty (receivedBy p.ends.calls)) (record p.codec)
      rw [hrecord]
      exact hpaid.thrifty
    · intro hcut
      have hspent := hdue (Except.error.inj hcut)
      have hsent := hpaid.sent.length_le
      show turns ≤ (record p.codec).length + 2 * ((receivedBy p.ends.calls).length
        + (givenBy (record p.codec)).length + interruptions p.ends.calls) + 3
      rw [hrecord]
      unfold Pump.spent traffic at hspent
      omega

/-- Work with a new destination that is paid for makes a run prudent. -/
theorem OneShot.run_prudent {direction : Direction} {unit sourceSize : Nat} {source : ByteArray}
    {work : Work κ Unit} (htells : Tells record codec)
    (hwork : Ensures work ⟨codec, ⟨.empty, unit, unit⟩, log⟩
      (fun _ o => ∃ calls, Paid codec source.data.toList calls o)
      (fun x o => Ceased (Spends codec source.data.toList) turns x o)) :
    Prudent turns ((run memory direction unit sourceSize work codec log).sight record source) := by
  unfold run
  split
  · exact prudent_of_no_steps (htells [] codec .nil) (by simp [Conversion.sight])
  next destination hcreate =>
  obtain rfl := GrowableBuffer.create_eq hcreate
  split
  · next o hw =>
    obtain ⟨calls, hpaid⟩ := hwork.of_ok hw
    refine ⟨?_, by simp [Conversion.sight]⟩
    show Each (Thrifty source.data.toList) (record o.codec)
    rw [htells _ _ hpaid.steps]
    exact hpaid.thrifty
  · next x o hw =>
    obtain ⟨_, ⟨calls, hpaid, rfl⟩, hdue⟩ := hwork.of_error hw
    have hrecord := htells _ _ hpaid.steps
    constructor
    · show Each (Thrifty source.data.toList) (record o.codec)
      rw [hrecord]
      exact hpaid.thrifty
    · intro hcut
      have hsteps := hdue (Except.error.inj hcut)
      rw [← hrecord] at hsteps
      show turns ≤ (record o.codec).length + 2 * _ + 3
      omega

end Runs

section Compress

variable {κ : Type} [Codec κ] {memory : Memory} {make : CompressorOptions → Except Error κ}
  {record : κ → List StepCall} (o : CompressorOptions) (log : Log)
  (htells : ∀ o' start, make o' = .ok start → Tells record start)

include htells

theorem Stream.compress_neverSpins {ε : Type} [Reader ε] [Writer ε] (ends : ε) :
    NeverSpins fun turns =>
      (compress memory make turns o (Observed.new ends) log).sight record := by
  refine neverSpins_of_prudent (fun turns hturns => congrArg _ (compress_stands hturns))
    fun turns => ?_
  unfold compress
  split
  · exact prudent_of_no_steps rfl (by simp [Transfer.sight])
  split
  · exact prudent_of_no_steps rfl (by simp [Transfer.sight])
  next start log' hsetUp =>
  refine run_prudent (htells _ _ (CompressorOptions.setUp_ok hsetUp)) fun log'' => ?_
  exact Pump.compress_paid turns
    (Pump.fed_new start ends log'' o.sourceLength o.destinationLength_pos) unended_nil
    (Pump.solvent_new start ends log'' o.sourceLength o.destinationLength_pos)

theorem OneShot.compress_neverSpins (source : ByteArray) :
    NeverSpins fun turns => (compress memory make turns o source log).sight record source := by
  refine neverSpins_of_prudent (fun turns hturns => congrArg _ (compress_stands hturns))
    fun turns => ?_
  unfold compress
  split
  · exact prudent_of_no_steps rfl (by simp [Conversion.sight])
  split
  · exact prudent_of_no_steps rfl (by simp [Conversion.sight])
  next start log' hsetUp =>
  refine run_prudent (htells _ _ (CompressorOptions.setUp_ok hsetUp)) ?_
  have hsolvent := solvent_new start (Slice.ofBytes source).toList log' o.destinationLength_pos
  rw [← Slice.toList_ofBytes source]
  exact compress_paid turns hsolvent

end Compress

section Decompress

variable {κ : Type} [Codec κ] {memory : Memory} {make : DecompressorOptions → Except Error κ}
  {record : κ → List StepCall} (o : DecompressorOptions) (log : Log)
  (htells : ∀ o' start, make o' = .ok start → Tells record start)

include htells

theorem Stream.decompress_neverSpins {ε : Type} [Reader ε] [Writer ε] (ends : ε) :
    NeverSpins fun turns =>
      (decompress memory make turns o (Observed.new ends) log).sight record := by
  refine neverSpins_of_prudent (fun turns hturns => congrArg _ (decompress_stands hturns))
    fun turns => ?_
  unfold decompress
  split
  · exact prudent_of_no_steps rfl (by simp [Transfer.sight])
  split
  · exact prudent_of_no_steps rfl (by simp [Transfer.sight])
  next start log' hsetUp =>
  refine run_prudent (htells _ _ (DecompressorOptions.setUp_ok hsetUp)) fun log'' => ?_
  exact Pump.decompress_paid turns
    (Pump.fed_new start ends log'' o.sourceLength o.destinationLength_pos) unended_nil
    (Pump.solvent_new start ends log'' o.sourceLength o.destinationLength_pos)

theorem OneShot.decompress_neverSpins (source : ByteArray) :
    NeverSpins fun turns => (decompress memory make turns o source log).sight record source := by
  refine neverSpins_of_prudent (fun turns hturns => congrArg _ (decompress_stands hturns))
    fun turns => ?_
  unfold decompress
  split
  · exact prudent_of_no_steps rfl (by simp [Conversion.sight])
  split
  · exact prudent_of_no_steps rfl (by simp [Conversion.sight])
  next start log' hsetUp =>
  refine run_prudent (htells _ _ (DecompressorOptions.setUp_ok hsetUp)) ?_
  have hsolvent := solvent_new start (Slice.ofBytes source).toList log' o.destinationLength_pos
  rw [← Slice.toList_ofBytes source]
  exact decompress_paid turns hsolvent

end Decompress

/-! ## Reading out -/

namespace DecompressingReader

variable {κ ρ : Type} [Codec κ] [Reader ρ]

omit [Codec κ] [Reader ρ] in
/-- What is seen of a decompressing reader. -/
def sight {ε α : Type}
    (outcome : Except (Halt ε) α × DecompressingReader (Framed (Recorded κ)) (Observed ρ)) :
    Sight ε α where
  result := outcome.1
  received := receivedBy outcome.2.reader.calls
  steps := outcome.2.session.codec.record
  interruptions := interruptions outcome.2.reader.calls

/-- **A new reader that is read out** does not spin. -/
theorem Solvent.neverSpins {start : Framed (Recorded κ)}
    {first : DecompressingReader (Framed (Recorded κ)) (Observed ρ)}
    (h : Solvent start [] [] first) (hfirst : first.reader.calls = [])
    (htells : Tells Framed.record start) (rooms : Nat → Nat) :
    NeverSpins fun turns => sight (first.readOut turns rooms) := by
  refine neverSpins_of_prudent (fun turns hturns =>
    congrArg sight (readOut_stands turns rooms first hturns)) fun turns => ?_
  obtain ⟨calls, served, hpaid, hdue⟩ := h.readOut turns rooms
  have hrecord : (first.readOut turns rooms).2.session.codec.record = calls :=
    htells _ _ hpaid.steps
  constructor
  · show Each (Thrifty (receivedBy (first.readOut turns rooms).2.reader.calls))
      (first.readOut turns rooms).2.session.codec.record
    rw [hrecord]
    exact hpaid.thrifty
  · intro hcut
    have hspent := hdue hcut
    have hserved := hpaid.served.length_le
    have haccepted := acceptedBy_of_reads hpaid.reads
    have hnone : spent [] [] first = 0 := by rw [spent, hfirst]; rfl
    show turns ≤ (first.readOut turns rooms).2.session.codec.record.length
      + 2 * ((receivedBy (first.readOut turns rooms).2.reader.calls).length
        + (givenBy (first.readOut turns rooms).2.session.codec.record).length
        + interruptions (first.readOut turns rooms).2.reader.calls) + 3
    rw [hrecord]
    rw [hnone] at hspent
    unfold spent traffic at hspent
    rw [haccepted, List.length_nil] at hspent
    omega

end DecompressingReader

/-! ## Calls of a writer -/

namespace DecompressingWriter

variable {κ ω ε α : Type} [Codec κ] [Writer ω]

omit [Codec κ] [Writer ω] in
/-- What is seen of a call of the writer `d`: the steps that were made in it, for which nothing has
to be received. -/
def sightSince (d : DecompressingWriter (Framed (Recorded κ)) (Observed ω))
    (outcome : Except (Halt ε) α × DecompressingWriter (Framed (Recorded κ)) (Observed ω)) :
    Sight ε α where
  result := outcome.1
  received := []
  steps := outcome.2.session.codec.record.drop d.session.codec.record.length
  interruptions := interruptions (outcome.2.writer.calls.drop d.writer.calls.length)

/-- **A call that ends soon**: one step more than bytes are put out in it. -/
structure EndsSoon (d : DecompressingWriter (Framed (Recorded κ)) (Observed ω))
    (call : Nat → Except (Halt ε) α × DecompressingWriter (Framed (Recorded κ)) (Observed ω)) :
    Prop where
  /-- The record goes on where it was. -/
  record : ∀ turns, d.session.codec.record <+: (call turns).2.session.codec.record
  /-- There are few steps. -/
  few : ∀ turns, (sightSince d (call turns)).steps.length
    ≤ (givenBy (sightSince d (call turns)).steps).length + 1
  /-- If there is a bound on what there is to do, the call comes to its end. -/
  returns : ∀ bound, (∀ turns, (sightSince d (call turns)).extent ≤ bound) →
    Sight.Returns fun turns => sightSince d (call turns)

omit [Writer ω] in
/-- A brief call of which nothing changes with more turns ends soon. -/
theorem endsSoon_of_done {d : DecompressingWriter (Framed (Recorded κ)) (Observed ω)}
    {call : Nat → Except (Halt ε) α × DecompressingWriter (Framed (Recorded κ)) (Observed ω)}
    (hstands : ∀ turns, Stands (call turns) (call (turns + 1)))
    (hdone : ∀ turns, ∃ made more, Done turns d made more (call turns)) : EndsSoon d call := by
  have hrecord : ∀ {turns : Nat} {made : List StepCall} {more : List EndCall},
      Done turns d made more (call turns) →
      (call turns).2.session.codec.record = d.session.codec.record ++ made :=
    fun h => h.steps.unframed.recorded
  have hsteps : ∀ {turns : Nat} {made : List StepCall} {more : List EndCall},
      Done turns d made more (call turns) → (sightSince d (call turns)).steps = made := by
    intro turns made more h
    show (call turns).2.session.codec.record.drop _ = made
    rw [hrecord h, List.drop_left]
  have hfew : ∀ turns, (sightSince d (call turns)).steps.length
      ≤ (givenBy (sightSince d (call turns)).steps).length + 1 := by
    intro turns
    obtain ⟨made, more, h⟩ := hdone turns
    rw [hsteps h]
    exact h.few
  refine ⟨fun turns => ?_, hfew, fun bound hbound => ?_⟩
  · obtain ⟨made, more, h⟩ := hdone turns
    rw [hrecord h]
    exact List.prefix_append _ _
  · refine returns_of_busy (fun turns hturns => congrArg _ (hstands turns hturns))
      (fun turns => ?_) (fun turns hcut => ?_) hbound
    · have := hfew turns
      omega
    · obtain ⟨made, more, h⟩ := hdone turns
      have hbusy := h.busy hcut
      have haccepted := h.accepted
      have hmore : (call turns).2.writer.calls.drop d.writer.calls.length = more := by
        rw [h.ends, List.drop_left]
      show turns ≤ (sightSince d (call turns)).steps.length
        + 2 * (0 + (givenBy (sightSince d (call turns)).steps).length
          + interruptions ((call turns).2.writer.calls.drop d.writer.calls.length)) + 3
      rw [hsteps h, hmore]
      unfold traffic at hbusy
      rw [receivedBy_of_no_read h.reads, List.length_nil] at hbusy
      omega

end DecompressingWriter

/-! ## Whatever the codec does -/

/-- **No driver spins.** For every codec, which may refuse to use or to put out anything for ever,
for every source, reader and writer, and for buffers of any length: each step that is made by a
stream, by a one-shot operation, or by a decompressing reader that is read into any rooms until it
ends or fails, is one of at most three for each byte that was received or put out so far, and three.
A call of a decompressing writer, whatever was done with the writer before, makes at most one step
more than it puts out bytes. So each of them returns if there is a bound on the bytes that are
received and put out in it, and on how often its ends are interrupted. -/
theorem drivers_never_spin {κ : Type} [Codec κ] (memory : Memory) (log : Log) :
    (∀ (make : CompressorOptions → Except Error κ) (o : CompressorOptions),
      (∀ (ε : Type) [Reader ε] [Writer ε] (ends : ε), NeverSpins fun turns =>
        (Stream.compress memory (tracing make) turns o (Observed.new ends) log).sight
          Recorded.record)
      ∧ ∀ source : ByteArray, NeverSpins fun turns =>
        (OneShot.compress memory (tracing make) turns o source log).sight Recorded.record source)
    ∧ ∀ (make : DecompressorOptions → Except Error κ) (o : DecompressorOptions),
      (∀ (ε : Type) [Reader ε] [Writer ε] (ends : ε), NeverSpins fun turns =>
        (Stream.decompress memory (recording make) turns o (Observed.new ends) log).sight
          Framed.record)
      ∧ (∀ source : ByteArray, NeverSpins fun turns =>
        (OneShot.decompress memory (recording make) turns o source log).sight Framed.record source)
      ∧ (∀ (ρ : Type) [Reader ρ] (reader : ρ) (log' : Log)
          (first : DecompressingReader (Framed (Recorded κ)) (Observed ρ)),
        DecompressingReader.create memory (recording make) o (Observed.new reader) log
          = (.ok first, log') →
        ∀ rooms : Nat → Nat, NeverSpins fun turns =>
          DecompressingReader.sight (first.readOut turns rooms))
      ∧ ∀ (ω : Type) [Writer ω] (writer : ω) (log' : Log)
          (first d : DecompressingWriter (Framed (Recorded κ)) (Observed ω)),
        DecompressingWriter.create memory (recording make) o (Observed.new writer) log
          = (.ok first, log') →
        DecompressingWriter.Tried first d →
        (∀ input : Slice, d.EndsSoon fun turns => d.write turns input)
          ∧ d.EndsSoon fun turns => d.finish turns := by
  have htraced : ∀ (make : CompressorOptions → Except Error κ) o' start,
      tracing make o' = .ok start → Tells Recorded.record start :=
    fun make o' start hmake calls codec hsteps => hsteps.record_eq hmake
  have hframed : ∀ (make : DecompressorOptions → Except Error κ) o' start,
      recording make o' = .ok start → Tells Framed.record start :=
    fun make o' start hmake calls codec hsteps => hsteps.framed_record_eq hmake
  refine ⟨fun make o => ⟨?_, ?_⟩, fun make o => ⟨?_, ?_, ?_, ?_⟩⟩
  · intro ε _ _ ends
    exact Stream.compress_neverSpins o log (htraced make) ends
  · intro source
    exact OneShot.compress_neverSpins o log (htraced make) source
  · intro ε _ _ ends
    exact Stream.decompress_neverSpins o log (hframed make) ends
  · intro source
    exact OneShot.decompress_neverSpins o log (hframed make) source
  · intro ρ _ reader log' first hfirst rooms
    obtain ⟨start, hmake, rfl⟩ := DecompressingReader.create_ok hfirst
    exact (DecompressingReader.solvent_new start reader o.sourceLength
      o.destinationLength_pos).neverSpins rfl (hframed make o start hmake) rooms
  · intro ω _ writer log' first d hfirst htried
    obtain ⟨start, hmake, rfl⟩ := DecompressingWriter.create_ok hfirst
    have hpoised := htried.poised
      (DecompressingWriter.poised_new start writer o.destinationLength_pos)
    exact ⟨fun input => DecompressingWriter.endsSoon_of_done
        (fun turns => DecompressingWriter.write_stands turns d input)
        fun turns => (hpoised.write turns input).2,
      DecompressingWriter.endsSoon_of_done
        (fun turns => DecompressingWriter.finish_stands turns d) fun turns => hpoised.finish turns⟩

/-! ### A codec that does nothing -/

namespace Idle

/-- A codec that neither uses nor puts out anything. -/
def make {ο : Type} (_ : ο) : Except Error ScriptedCodec := .ok ⟨[]⟩

def session : Session (Framed (Recorded ScriptedCodec)) :=
  ⟨{ codec := ⟨⟨[]⟩, #[]⟩ }, ⟨.empty, 131072⟩, .active⟩

def reader : DecompressingReader (Framed (Recorded ScriptedCodec)) (Observed Slice) :=
  ⟨.new (.ofBytes Pair.source), ⟨.empty, 0, 131075⟩, session, .empty, false, false, false⟩

def writer : DecompressingWriter (Framed (Recorded ScriptedCodec)) (Observed ByteArray) :=
  ⟨.new .empty, session⟩

end Idle

/-- With a codec that does nothing, two bytes are given up after a step or two. -/
theorem drivers_never_spin_when_idle :
    let t := (Stream.compress .machine (tracing Idle.make) 9 {} (Observed.new Pair.ends) #[]).sight
      Recorded.record
    let r := DecompressingReader.sight (Idle.reader.readOut 9 fun _ => 4)
    let w := Idle.writer.sightSince (Idle.writer.write 9 (.ofBytes Pair.source))
    (Each (Thrifty t.received) t.steps ∧ t.received = [1, 2] ∧ t.steps.length = 2)
      ∧ (Each (Thrifty r.received) r.steps ∧ r.received = [1, 2] ∧ r.steps.length = 1)
      ∧ w.steps.length ≤ (givenBy w.steps).length + 1 ∧ w.steps.length = 1 := by
  obtain ⟨hcompress, hdecompress⟩ := drivers_never_spin (κ := ScriptedCodec) .machine #[]
  obtain ⟨hstream, -⟩ := hcompress Idle.make {}
  obtain ⟨-, -, hreader, hwriter⟩ := hdecompress Idle.make {}
  have hread := hreader Slice (.ofBytes Pair.source) #[] Idle.reader rfl fun _ => 4
  obtain ⟨hwrite, -⟩ := hwriter ByteArray .empty #[] Idle.writer Idle.writer rfl .nil
  exact ⟨⟨(hstream _ Pair.ends).thrifty 9, by cbv, by cbv⟩, ⟨hread.thrifty 9, by cbv, by cbv⟩,
    (hwrite (.ofBytes Pair.source)).few 9, by cbv⟩

end Zstandard
