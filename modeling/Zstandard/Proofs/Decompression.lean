import Zstandard.Proofs.DecompressingWriter
import Zstandard.Proofs.OneShot
import Zstandard.Proofs.Opening
import Zstandard.Proofs.Supplied

/-!
# Decompression that reports success

There are four ways to decompress: a stream, a one-shot operation, a writer that is finished, a
reader that is read to its end. `Decompressed` says what the codec has done by the time any of them
reports success, and `Whole` says it of the record of a framed codec. Each way is held against
`Decompressed` by itself; that the record is whole follows from that alone.
-/

namespace Zstandard

/-! ## What a success means -/

/-- What the codec has done when decompression succeeds, from `source` to `delivered`. -/
structure Decompressed {κ : Type} [Codec κ] (start : κ) (calls : List StepCall)
    (source delivered : List UInt8) (codec : κ) : Prop where
  /-- The calls lead to the codec. -/
  steps : Steps start calls codec
  /-- No call has failed. -/
  succeeded : ∀ c ∈ calls, c.succeeded = true
  /-- The source was used, every byte once, in order. -/
  taken : takenBy calls = source
  /-- What was put out was delivered. -/
  given : delivered = givenBy calls
  /-- The codec has nothing more to give. -/
  quiescent : Quiescent calls
  /-- The input may end here. -/
  endOfInput : Codec.endOfInput codec = .ok ()

/-- Calls that decompress all of a source, and no more. -/
structure Whole (calls : List StepCall) (source delivered : List UInt8) : Prop where
  /-- They use every byte of the source once, in order. -/
  taken : takenBy calls = source
  /-- No byte is used after the last call that completes a frame, or none at all. -/
  boundary : AtBoundary calls
  /-- What they put out is what is delivered. -/
  given : delivered = givenBy calls
  /-- The last call leaves a part of its room unused. -/
  leavesRoom : ∀ last ∈ calls.getLast?, last.LeavesRoom

/-- The record of a framed codec. -/
def Framed.record {κ : Type} (f : Framed (Recorded κ)) : List StepCall := f.codec.calls.toList

/-- A framed codec with a record of its steps, around the codec that `make` makes. -/
def recording {κ ο : Type} (make : ο → Except Error κ) (o : ο) :
    Except Error (Framed (Recorded κ)) :=
  (make o).map fun codec => { codec := ⟨codec, #[]⟩ }

/-- The record of a framed codec that was made with an empty one. -/
theorem Steps.framed_record_eq {κ ο : Type} [Codec κ] {make : ο → Except Error κ} {o : ο}
    {start codec : Framed (Recorded κ)} {calls : List StepCall} (h : Steps start calls codec)
    (hmake : recording make o = .ok start) : codec.record = calls := by
  have hstart : start.codec.calls = #[] := by
    unfold recording at hmake
    cases hm : make o with
    | error e => rw [hm] at hmake; cases hmake
    | ok c => rw [hm] at hmake; cases hmake; rfl
  unfold Framed.record
  rw [h.unframed.recorded, hstart]
  rfl

/-- **A success is whole**, by the record of the codec. -/
theorem Decompressed.whole {κ ο : Type} [Codec κ] {make : ο → Except Error κ} {o : ο}
    {start codec : Framed (Recorded κ)} {calls : List StepCall} {source delivered : List UInt8}
    (h : Decompressed start calls source delivered codec) (hmake : recording make o = .ok start) :
    Whole codec.record source delivered := by
  have hstart : start.codec.calls = #[] ∧ start.inFrame = false := by
    unfold recording at hmake
    cases hm : make o with
    | error e => rw [hm] at hmake; cases hmake
    | ok c => rw [hm] at hmake; cases hmake; exact ⟨rfl, rfl⟩
  -- the record began empty, so it is the calls
  have hrecord : codec.record = calls := by
    unfold Framed.record
    rw [h.steps.unframed.recorded, hstart.1]
    rfl
  have hclosed : codec.inFrame = false := by
    have hend : codec.endOfInput = .ok () := h.endOfInput
    unfold Framed.endOfInput at hend
    split at hend
    · cases hend
    · next hopen => simpa using hopen
  rw [hrecord]
  exact ⟨h.taken, (h.steps.inFrame_eq_false_iff hstart.2).mp hclosed, h.given,
    fun last hlast => (h.quiescent last hlast).1⟩

/-! ## The four ways -/

section Ways

variable {κ : Type} [Codec κ] {memory : Memory} {make : DecompressorOptions → Except Error κ}
  {turns : Nat} {o : DecompressorOptions} {log : Log}

/-- **A stream that succeeds** has read the reader to its end and decompressed what it gave. -/
theorem Stream.decompress_ok {ε : Type} [Reader ε] [Writer ε] {ends : ε}
    {t : Transfer κ (Observed ε)}
    (ht : Stream.decompress memory make turns o (.new ends) log = t) (hok : t.result = .ok ()) :
    ∃ start calls codec, make o = .ok start ∧ t.codec = some codec
      ∧ Decompressed start calls (receivedBy t.ends.calls) (acceptedBy t.ends.calls) codec
      ∧ Each (Feeds (receivedBy t.ends.calls)) calls ∧ Exhausted t.ends.calls
      ∧ ∀ (still : List UInt8 → ε → Prop) (source : List UInt8), Supplies still →
        (∀ rest, Obliges (still rest)) → still source ends → receivedBy t.ends.calls = source := by
  unfold Stream.decompress at ht
  split at ht
  · subst ht; cases hok
  split at ht
  · subst ht; cases hok
  next codec log' hsetUp =>
  subst ht
  obtain ⟨p, log', hwork, hcodec, hends⟩ := run_ok hok
  rw [hcodec, hends]
  have hfed₀ := Pump.fed_new codec ends log' o.sourceLength o.destinationLength_pos
  refine ⟨codec, ?_⟩
  simp only [DecompressorOptions.setUp_ok hsetUp, Option.some.injEq, true_and]
  refine Ensures.of_ok (Q := fun _ p => ∃ calls codec', p.codec = codec'
    ∧ Decompressed codec calls (receivedBy p.ends.calls) (acceptedBy p.ends.calls) codec'
    ∧ Each (Feeds (receivedBy p.ends.calls)) calls ∧ Exhausted p.ends.calls
    ∧ ∀ (still : List UInt8 → ε → Prop) (source : List UInt8), Supplies still →
      (∀ rest, Obliges (still rest)) → still source ends → receivedBy p.ends.calls = source)
    (E := fun _ _ => True) ?_ hwork
  -- that the source was received is shown beside the rest, for any source the reader may have had
  have hread := Pump.readSource_ensures turns hfed₀ unended_nil
  refine Ensures.bind (R := fun _ p₁ => (Exhausted p₁.ends.calls ∧ p₁.source.pending.toList = []
      ∧ ∃ calls, Pump.Fed codec calls p₁ ∧ Quiescent calls)
    ∧ ∀ (still : List UInt8 → ε → Prop) (source : List UInt8), Supplies still →
      (∀ rest, Obliges (still rest)) → still source ends → receivedBy p₁.ends.calls = source) ?_ ?_
  · refine Ensures.intro (fun _ p₁ hw => ⟨hread.of_ok hw, ?_⟩) (fun _ _ _ => trivial)
    intro still source hstill hfine hsource
    exact (Pump.readSource_supplied hstill hfine turns hfed₀ unended_nil
      ⟨source, hsource, rfl⟩).of_ok hw
  rintro _ p₁ ⟨⟨hex, hnil, calls, hfed, hquiescent⟩, hsupplied⟩
  refine Ensures.bind ((Pump.endOfInput_ensures p₁).mono (fun _ _ hq => hq)
    (fun _ _ _ => trivial)) ?_
  rintro _ _ ⟨rfl, hend⟩
  refine (Pump.complete_ensures turns hfed.toClean).mono ?_ (fun _ _ _ => trivial)
  rintro _ p₂ ⟨hcodec, hquiet, hdelivered⟩
  have hreceived := hquiet.received
  obtain ⟨more, hmore, hread⟩ := hquiet
  have htaken : takenBy calls = receivedBy p₂.ends.calls := by
    rw [hreceived, hfed.source, hnil, List.append_nil]
  refine ⟨calls, _, rfl, ⟨hcodec ▸ hfed.steps, hfed.succeeded, htaken, hdelivered, hquiescent,
    hcodec ▸ hend⟩, hreceived ▸ hfed.feeds, hmore ▸ hex.append hread, ?_⟩
  intro still source hstill hfine hsource
  rw [hreceived]
  exact hsupplied still source hstill hfine hsource

/-- **A one-shot operation that succeeds** has decompressed its source. -/
theorem OneShot.decompress_ok {source bytes : ByteArray} {c : Conversion κ}
    (hc : OneShot.decompress memory make turns o source log = c) (hok : c.result = .ok bytes) :
    ∃ start calls codec, make o = .ok start ∧ c.codec = some codec
      ∧ Decompressed start calls source.data.toList bytes.data.toList codec
      ∧ Each (Feeds source.data.toList) calls := by
  unfold OneShot.decompress at hc
  split at hc
  · subst hc; cases hok
  split at hc
  · subst hc; cases hok
  next codec log' hsetUp =>
  subst hc
  obtain ⟨o', hwork, rfl, hcodec⟩ := OneShot.run_ok hok
  rw [hcodec]
  refine ⟨codec, ?_⟩
  simp only [DecompressorOptions.setUp_ok hsetUp, Option.some.injEq, true_and]
  refine Ensures.of_ok (Q := fun _ o' => ∃ calls codec', o'.codec = codec'
    ∧ Decompressed codec calls source.data.toList o'.destination.bytes.data.toList codec'
    ∧ Each (Feeds source.data.toList) calls) (E := fun _ _ => True) ?_ hwork
  have hfed := OneShot.fed_new codec (.ofBytes source) log' o.destinationLength_pos
  refine Ensures.bind ((OneShot.feedFrames_ensures turns hfed).mono (fun _ _ hq => hq)
    (fun _ _ _ => trivial)) ?_
  rintro _ o₁ ⟨calls, hfeeding, htaken, hgiven, hquiescent⟩
  rw [Slice.toList_ofBytes] at hfeeding htaken
  refine (OneShot.endOfInput_ensures o₁).mono ?_ (fun _ _ _ => trivial)
  rintro _ _ ⟨rfl, hend⟩
  exact ⟨calls, _, rfl, ⟨hfeeding.steps, hfeeding.succeeded, htaken, hgiven, hquiescent, hend⟩,
    hfeeding.feeds⟩

/-- **A writer that was finished** has decompressed what was written to it. -/
theorem DecompressingWriter.finished_ok {ω : Type} [Writer ω] {writer : ω} {log' : Log}
    {first d d' : DecompressingWriter κ (Observed ω)} {done : List UInt8}
    (hfirst : DecompressingWriter.create memory make o (.new writer) log = (.ok first, log'))
    (hwritten : Written first done d) (hfinish : d.finish turns = (.ok (), d')) :
    ∃ start calls, make o = .ok start
      ∧ Decompressed start calls done (acceptedBy d'.writer.calls) d'.session.codec := by
  obtain ⟨start, hmake, rfl⟩ := create_ok hfirst
  have hnew := relayed_new start writer o.destinationLength_pos
  obtain ⟨calls, hrelayed, htaken⟩ := hwritten.relayed hnew
  obtain ⟨calls', h⟩ := finish_ok hrelayed hfinish
  exact ⟨start, calls', hmake, h.steps, h.succeeded, h.taken.trans htaken, h.delivered,
    h.quiescent, h.endOfInput⟩

/-- **A reader that was read to its end** has decompressed what it received. -/
theorem DecompressingReader.served_ok {ρ : Type} [Reader ρ] {reader : ρ} {log' : Log}
    {first d d' : DecompressingReader κ (Observed ρ)} {served : List UInt8} {room : Nat}
    {b : ByteArray}
    (hfirst : DecompressingReader.create memory make o (.new reader) log = (.ok first, log'))
    (hserved : Served first served d) (hread : d.read turns room = (.ok b, d'))
    (hroom : room ≠ 0) (hsize : b.size = 0) :
    ∃ start calls, make o = .ok start
      ∧ Decompressed start calls (receivedBy d'.reader.calls) served d'.session.codec
      ∧ Each (Feeds (receivedBy d'.reader.calls)) calls ∧ Exhausted d'.reader.calls
      ∧ ∀ (still : List UInt8 → ρ → Prop) (source : List UInt8), Supplies still →
        still source reader → receivedBy d'.reader.calls = source := by
  obtain ⟨start, hmake, rfl⟩ := create_ok hfirst
  have hnew := working_new start reader o.sourceLength o.destinationLength_pos
  have hworking := hserved.working hnew
  obtain ⟨-, hend⟩ := read_ok hworking hread
  obtain ⟨calls, h, hnil⟩ := hend hroom hsize
  have hgiven := h.output_eq
  rw [hnil, List.append_nil] at hgiven
  refine ⟨start, calls, hmake, ⟨h.feeding.steps, h.feeding.succeeded, h.source_eq.symm,
    hgiven.symm, h.quiescent, h.endOfInput⟩, h.feeding.feeds, h.exhausted, ?_⟩
  intro still source hstill hsource
  have hcomplete := hserved.complete hstill hnew
    ⟨⟨source, hsource, rfl⟩, fun hfinished => by cases hfinished⟩
  exact (hcomplete.read hstill hworking hread).received h.finished

end Ways

/-! ## The contract -/

/-- **Decompression that reports success is whole.** For every codec, reader and writer, and every
history of calls of which none has failed: if a stream or a one-shot operation succeeds, a writer is
finished, or a reader gives nothing although there is room, then the calls of the codec used every
byte of the source once and in order, the last frame ended with it, what they put out was delivered,
and the last of them left room. -/
theorem decompression_is_whole {κ : Type} [Codec κ] (make : DecompressorOptions → Except Error κ)
    (memory : Memory) (turns : Nat) (o : DecompressorOptions) (log : Log) :
    (∀ (ε : Type) [Reader ε] [Writer ε] (ends : ε)
        (t : Transfer (Framed (Recorded κ)) (Observed ε)),
      Stream.decompress memory (recording make) turns o (Observed.new ends) log = t →
      t.result = .ok () →
      ∃ codec, t.codec = some codec
        ∧ Whole codec.record (receivedBy t.ends.calls) (acceptedBy t.ends.calls)
        ∧ Exhausted t.ends.calls)
    ∧ (∀ (source bytes : ByteArray) (c : Conversion (Framed (Recorded κ))),
      OneShot.decompress memory (recording make) turns o source log = c →
      c.result = .ok bytes →
      ∃ codec, c.codec = some codec ∧ Whole codec.record source.data.toList bytes.data.toList)
    ∧ (∀ (ω : Type) [Writer ω] (writer : ω) (log' : Log)
        (first d d' : DecompressingWriter (Framed (Recorded κ)) (Observed ω)) (done : List UInt8),
      DecompressingWriter.create memory (recording make) o (Observed.new writer) log
        = (.ok first, log') →
      DecompressingWriter.Written first done d → d.finish turns = (.ok (), d') →
      Whole d'.session.codec.record done (acceptedBy d'.writer.calls))
    ∧ (∀ (ρ : Type) [Reader ρ] (reader : ρ) (log' : Log)
        (first d d' : DecompressingReader (Framed (Recorded κ)) (Observed ρ)) (served : List UInt8)
        (room : Nat) (b : ByteArray),
      DecompressingReader.create memory (recording make) o (Observed.new reader) log
        = (.ok first, log') →
      DecompressingReader.Served first served d → d.read turns room = (.ok b, d') →
      room ≠ 0 → b.size = 0 →
      Whole d'.session.codec.record (receivedBy d'.reader.calls) served
        ∧ Exhausted d'.reader.calls) := by
  refine ⟨?_, ?_, ?_, ?_⟩
  · intro ε _ _ ends t ht hok
    obtain ⟨start, calls, codec, hmake, hcodec, h, -, hex, -⟩ := Stream.decompress_ok ht hok
    exact ⟨codec, hcodec, h.whole hmake, hex⟩
  · intro source bytes c hc hok
    obtain ⟨start, calls, codec, hmake, hcodec, h, -⟩ := OneShot.decompress_ok hc hok
    exact ⟨codec, hcodec, h.whole hmake⟩
  · intro ω _ writer log' first d d' done hfirst hwritten hfinish
    obtain ⟨start, calls, hmake, h⟩ := DecompressingWriter.finished_ok hfirst hwritten hfinish
    exact h.whole hmake
  · intro ρ _ reader log' first d d' served room b hfirst hserved hread hroom hsize
    obtain ⟨start, calls, hmake, h, -, hex, -⟩ :=
      DecompressingReader.served_ok hfirst hserved hread hroom hsize
    exact ⟨h.whole hmake, hex⟩

/-! ### Two bytes that stand for a frame of three -/

namespace Pair

/-- The codec for which the next two bytes are a frame. -/
def codec : ScriptedCodec := ⟨[.act 2 ⟨#[7, 8, 9]⟩ .done]⟩

def make (_ : DecompressorOptions) : Except Error ScriptedCodec := .ok codec

def source : ByteArray := ⟨#[1, 2]⟩

def session : Session (Framed (Recorded ScriptedCodec)) :=
  ⟨{ codec := ⟨codec, #[]⟩ }, ⟨.empty, 131072⟩, .active⟩

def ends : Ends Slice ByteArray := ⟨.ofBytes source, .empty⟩

def writer : DecompressingWriter (Framed (Recorded ScriptedCodec)) (Observed ByteArray) :=
  ⟨.new .empty, session⟩

def reader : DecompressingReader (Framed (Recorded ScriptedCodec)) (Observed Slice) :=
  ⟨.new (.ofBytes source), ⟨.empty, 0, 131075⟩, session, .empty, false, false, false⟩

end Pair

/-- The record of a pair is whole, whichever way it is decompressed. -/
theorem decompression_is_whole_of_pair :
    let t := Stream.decompress .machine (recording Pair.make) 9 {} (Observed.new Pair.ends) #[]
    let c := OneShot.decompress .machine (recording Pair.make) 9 {} Pair.source #[]
    let d := ((Pair.writer.write 9 (.ofBytes Pair.source)).2.finish 9).2
    let r := ((Pair.reader.read 9 4).2.read 9 4).2
    (∃ codec, t.codec = some codec
        ∧ Whole codec.record (receivedBy t.ends.calls) (acceptedBy t.ends.calls)
        ∧ Exhausted t.ends.calls)
      ∧ (∃ codec, c.codec = some codec ∧ Whole codec.record [1, 2] [7, 8, 9])
      ∧ Whole d.session.codec.record [1, 2] (acceptedBy d.writer.calls)
      ∧ Whole r.session.codec.record (receivedBy r.reader.calls) [7, 8, 9]
      ∧ Exhausted r.reader.calls := by
  obtain ⟨hstream, honeShot, hwriter, hreader⟩ :=
    decompression_is_whole Pair.make .machine 9 {} #[]
  have hwrite : Pair.writer.write 9 (.ofBytes Pair.source)
      = (.ok 2, (Pair.writer.write 9 (.ofBytes Pair.source)).2) := rfl
  have hread : Pair.reader.read 9 4 = (.ok ⟨#[7, 8, 9]⟩, (Pair.reader.read 9 4).2) := rfl
  refine ⟨hstream _ Pair.ends _ rfl rfl, honeShot Pair.source ⟨#[7, 8, 9]⟩ _ rfl rfl, ?_, ?_⟩
  · exact hwriter ByteArray .empty #[] Pair.writer _ _ [1, 2] rfl (.write .nil hwrite) rfl
  · exact hreader Slice (.ofBytes Pair.source) #[] Pair.reader _ _ [7, 8, 9] 4 ⟨#[]⟩ rfl
      (.read .nil hread) rfl (by decide) rfl

end Zstandard
