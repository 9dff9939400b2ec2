import Zstandard.Proofs.Closing
import Zstandard.Proofs.CompressingReader
import Zstandard.Proofs.CompressingWriter
import Zstandard.Proofs.Opening
import Zstandard.Script

/-!
# Compression is complete, and keeps to the protocol

There are four ways to compress: a stream, a one-shot operation, a writer and a reader. Whatever
fails on the way, and wherever, each of them keeps to the protocol of its codec: a frame that was
asked to be closed is not fed again, and one that has been closed is let be. And if they succeed,
all of the source is in the frame and all of the frame was delivered. The headline is
`compression_is_complete`.
-/

namespace Zstandard

/-- The record of a codec. -/
def Recorded.record {κ : Type} (c : Recorded κ) : List StepCall := c.calls.toList

/-- A codec with a record of its steps, around the codec that `make` makes. -/
def tracing {κ ο : Type} (make : ο → Except Error κ) (o : ο) : Except Error (Recorded κ) :=
  (make o).map fun codec => ⟨codec, #[]⟩

/-- Calls that keep to the protocol: some that open a frame, some that close it, and none after the
one that has closed it. -/
def Disciplined (calls : List StepCall) : Prop :=
  ∃ opening closing, calls = opening ++ closing ∧ Orderly opening closing

/-- Calls that put all of a source into one frame and close it, and what they put out. -/
def Complete (calls : List StepCall) (source delivered : List UInt8) : Prop :=
  ∃ opening closing last, calls = opening ++ closing ++ [last]
    ∧ Encoded opening closing last source delivered

section Record

variable {κ ο : Type} [Codec κ] {make : ο → Except Error κ} {o : ο} {start codec : Recorded κ}
  {calls : List StepCall}

/-- The record of a codec that was made with an empty one. -/
theorem Steps.record_eq (h : Steps start calls codec) (hmake : tracing make o = .ok start) :
    codec.record = calls := by
  have hstart : start.calls = #[] := by
    unfold tracing at hmake
    cases hm : make o with
    | error e => rw [hm] at hmake; cases hmake
    | ok c => rw [hm] at hmake; cases hmake; rfl
  unfold Recorded.record
  rw [h.recorded, hstart]
  rfl

/-- Calls that keep to the protocol make a disciplined record. -/
theorem Steps.disciplined (h : Steps start calls codec) (hmake : tracing make o = .ok start)
    (hprotocol : Each Protocol calls) : Disciplined codec.record := by
  obtain ⟨opening, closing, heq, horderly, -⟩ := h.orderly hprotocol
  exact ⟨opening, closing, (h.record_eq hmake).trans heq, horderly⟩

/-- Calls that have closed the frame make a complete record. -/
theorem Steps.complete (h : Steps start calls codec) (hmake : tracing make o = .ok start)
    (hprotocol : Each Protocol calls) (hclosed : Closed calls) {source delivered : List UInt8}
    (htaken : takenBy calls = source) (hgiven : delivered = givenBy calls) :
    Complete codec.record source delivered := by
  obtain ⟨opening, closing, last, heq, hencoded⟩ := h.encoded hprotocol hclosed
  rw [htaken, ← hgiven] at hencoded
  exact ⟨opening, closing, last, (h.record_eq hmake).trans heq, hencoded⟩

end Record

/-- A codec that has kept to the protocol, and was not asked to flush. -/
def Unbroken {κ : Type} [Codec κ] (start codec : κ) : Prop :=
  ∃ calls, Steps start calls codec ∧ Each Protocol calls ∧ Unflushed calls

theorem unbroken_new {κ : Type} [Codec κ] (start : κ) : Unbroken start start :=
  ⟨[], .nil, each_nil, fun _ hc => absurd hc List.not_mem_nil⟩

/-- The record of an unbroken codec is disciplined, and has no flush in it. -/
theorem Unbroken.disciplined {κ ο : Type} [Codec κ] {make : ο → Except Error κ} {o : ο}
    {start codec : Recorded κ} (h : Unbroken start codec) (hmake : tracing make o = .ok start) :
    Disciplined codec.record ∧ Unflushed codec.record := by
  obtain ⟨calls, hsteps, hprotocol, hunflushed⟩ := h
  refine ⟨hsteps.disciplined hmake hprotocol, ?_⟩
  rw [hsteps.record_eq hmake]
  exact hunflushed

/-! ## Streams and one-shot operations -/

namespace Pump

variable {κ ε : Type} [Codec κ] [Reader ε] [Writer ε] {start : κ}

/-- **Compressing** what a reader has. The frame has been closed with all of it inside, and written
out. -/
theorem compress_ensures (turns : Nat) {p : Pump κ (Observed ε)} (h : Fed start [] p)
    (hunended : Unended p.ends.calls) :
    Ensures (do readSource turns; finish turns; complete turns) p
      (fun _ p' => Exhausted p'.ends.calls
        ∧ ∃ calls, Steps start calls p'.codec ∧ Each Protocol calls ∧ Unflushed calls
          ∧ Closed calls ∧ Each (Offers (receivedBy p'.ends.calls)) calls
          ∧ (∀ c ∈ calls, c.succeeded = true) ∧ takenBy calls = receivedBy p'.ends.calls
          ∧ acceptedBy p'.ends.calls = givenBy calls)
      (fun _ p' => Unbroken start p'.codec) := by
  refine Ensures.bind ((readSource_ensures turns h hunended).mono (fun _ _ hq => hq) ?_) ?_
  · rintro _ p₁ ⟨calls, htraced, hfeeds⟩
    obtain ⟨hprotocol, -, hunflushed⟩ := protocol_of_feeds hfeeds
    exact ⟨calls, htraced.steps, hprotocol, hunflushed⟩
  rintro _ p₁ ⟨hex, hnil, calls, hfed, -⟩
  obtain ⟨hprotocol, hunfinished, hunflushed⟩ := protocol_of_feeds hfed.feeds
  have htaken : takenBy calls = receivedBy p₁.ends.calls := by
    rw [hfed.source, hnil, List.append_nil]
  refine Ensures.bind ((finish_ensures turns hfed.toClean hprotocol hunfinished.unclosed
    hfed.room).mono (fun _ _ hq => hq) ?_) ?_
  · rintro _ p₂ ⟨closing, htraced, hprotocol₂, honly⟩
    exact ⟨_, htraced.steps, hprotocol₂, honly.unflushed hunflushed⟩
  rintro _ p₂ ⟨hquiet, -, closing, hclean, hprotocol₂, hclosed, honly⟩
  -- the frame is closed now, and what is left to do may fail without a call of the codec
  have hunbroken : Unbroken start p₂.codec :=
    ⟨_, hclean.steps, hprotocol₂, honly.unflushed hunflushed⟩
  refine (complete_ensures turns hclean).mono ?_ (fun _ p₃ hcodec => hcodec ▸ hunbroken)
  rintro _ p₃ ⟨hcodec, hquiet₃, hdelivered⟩
  have hreceived : receivedBy p₃.ends.calls = receivedBy p₁.ends.calls :=
    (hquiet.trans hquiet₃).received
  obtain ⟨more, hmore, hread⟩ := hquiet.trans hquiet₃
  refine ⟨hmore ▸ hex.append hread, calls ++ closing, hcodec ▸ hclean.steps, hprotocol₂,
    honly.unflushed hunflushed, hclosed, ?_, hclean.succeeded, ?_, hdelivered⟩
  · rw [hreceived]
    exact honly.offers (offers_of_feeds hfed.feeds) htaken
  · rw [takenBy_append, honly.taken, List.append_nil, hreceived, htaken]

end Pump

namespace OneShot

variable {κ : Type} [Codec κ] {start : κ}

/-- **Compressing** an array. The frame has been closed with all of it inside. -/
theorem compress_ensures {memory : Memory} (turns : Nat) {remaining : Slice} {o : OneShot κ}
    (h : Fed start remaining.toList [] remaining o) :
    Ensures (do feedAll memory turns remaining; finish memory turns) o
      (fun _ o' => ∃ calls, Kept start calls o' ∧ Unflushed calls ∧ Closed calls
        ∧ Each (Offers remaining.toList) calls ∧ takenBy calls = remaining.toList)
      (fun _ o' => Unbroken start o'.codec) := by
  refine Ensures.bind ((feedAll_ensures turns h).mono (fun _ _ hq => hq) ?_) ?_
  · rintro _ o₁ ⟨calls, hsteps, hfeeds⟩
    obtain ⟨hprotocol, -, hunflushed⟩ := protocol_of_feeds hfeeds
    exact ⟨calls, hsteps, hprotocol, hunflushed⟩
  rintro _ o₁ ⟨calls, rest, hfed, htaken⟩
  obtain ⟨-, hunfinished, hunflushed⟩ := protocol_of_feeds hfed.feeding.feeds
  refine (finish_ensures turns hfed.kept hunfinished.unclosed hfed.room).mono ?_ ?_
  · rintro _ o₂ ⟨closing, hkept, hclosed, honly⟩
    refine ⟨_, hkept, honly.unflushed hunflushed, hclosed,
      honly.offers (offers_of_feeds hfed.feeding.feeds) htaken, ?_⟩
    rw [takenBy_append, honly.taken, List.append_nil, htaken]
  · rintro _ o₂ ⟨closing, hsteps, hprotocol, honly⟩
    exact ⟨_, hsteps, hprotocol, honly.unflushed hunflushed⟩

end OneShot

section Ways

variable {κ : Type} [Codec κ] {memory : Memory} {make : CompressorOptions → Except Error κ}
  {turns : Nat} {o : CompressorOptions} {log : Log}

/-- The codec of a stream, however it ends. -/
theorem Stream.compress_codec {ε : Type} [Reader ε] [Writer ε] {ends : ε} {codec : κ}
    (h : (Stream.compress memory make turns o (Observed.new ends) log).codec = some codec) :
    ∃ start, make o = .ok start ∧ Unbroken start codec := by
  unfold Stream.compress at h
  split at h
  · cases h
  split at h
  · cases h
  next start log' hsetUp =>
  refine ⟨start, CompressorOptions.setUp_ok hsetUp, run_ensures (unbroken_new start) ?_ h⟩
  intro log''
  have hfed := Pump.fed_new start ends log'' o.sourceLength o.destinationLength_pos
  refine (Pump.compress_ensures turns hfed unended_nil).mono ?_ (fun _ _ hx => hx)
  rintro _ p ⟨-, calls, hsteps, hprotocol, hunflushed, -⟩
  exact ⟨calls, hsteps, hprotocol, hunflushed⟩

/-- **A stream that succeeds** has put all that the reader had into the frame. -/
theorem Stream.compress_ok {ε : Type} [Reader ε] [Writer ε] {ends : ε}
    {t : Transfer κ (Observed ε)}
    (ht : Stream.compress memory make turns o (.new ends) log = t) (hok : t.result = .ok ()) :
    Exhausted t.ends.calls ∧ ∃ start calls codec, make o = .ok start ∧ t.codec = some codec
      ∧ Steps start calls codec ∧ Each Protocol calls ∧ Closed calls
      ∧ takenBy calls = receivedBy t.ends.calls ∧ acceptedBy t.ends.calls = givenBy calls := by
  unfold Stream.compress at ht
  split at ht
  · subst ht; cases hok
  split at ht
  · subst ht; cases hok
  next start log' hsetUp =>
  subst ht
  obtain ⟨p, log', hwork, hcodec, hends⟩ := run_ok hok
  rw [hcodec, hends]
  have hfed := Pump.fed_new start ends log' o.sourceLength o.destinationLength_pos
  obtain ⟨hex, calls, hsteps, hprotocol, -, hclosed, -, -, htaken, hdelivered⟩ :=
    (Pump.compress_ensures turns hfed unended_nil).of_ok hwork
  exact ⟨hex, start, calls, p.codec, CompressorOptions.setUp_ok hsetUp, rfl, hsteps, hprotocol,
    hclosed, htaken, hdelivered⟩

/-- The codec of a one-shot operation, however it ends. -/
theorem OneShot.compress_codec {source : ByteArray} {codec : κ}
    (h : (OneShot.compress memory make turns o source log).codec = some codec) :
    ∃ start, make (o.orPledge source.size) = .ok start ∧ Unbroken start codec := by
  unfold OneShot.compress at h
  split at h
  · cases h
  split at h
  · cases h
  next start log' hsetUp =>
  refine ⟨start, CompressorOptions.setUp_ok hsetUp, run_ensures (unbroken_new start) ?_ h⟩
  have hfed := OneShot.fed_new start (.ofBytes source) log' o.destinationLength_pos
  refine (OneShot.compress_ensures turns hfed).mono ?_ (fun _ _ hx => hx)
  rintro _ o' ⟨calls, hkept, hunflushed, -⟩
  exact ⟨calls, hkept.steps, hkept.protocol, hunflushed⟩

/-- **A one-shot operation that succeeds** has put all of its source into the frame. -/
theorem OneShot.compress_ok {source bytes : ByteArray} {c : Conversion κ}
    (hc : OneShot.compress memory make turns o source log = c) (hok : c.result = .ok bytes) :
    ∃ start calls codec, make (o.orPledge source.size) = .ok start ∧ c.codec = some codec
      ∧ Steps start calls codec ∧ Each Protocol calls ∧ Closed calls
      ∧ takenBy calls = source.data.toList ∧ bytes.data.toList = givenBy calls := by
  unfold OneShot.compress at hc
  split at hc
  · subst hc; cases hok
  split at hc
  · subst hc; cases hok
  next start log' hsetUp =>
  subst hc
  obtain ⟨o', hwork, rfl, hcodec⟩ := OneShot.run_ok hok
  rw [hcodec]
  have hfed := OneShot.fed_new start (.ofBytes source) log' o.destinationLength_pos
  obtain ⟨calls, hkept, -, hclosed, -, htaken⟩ :=
    (OneShot.compress_ensures turns hfed).of_ok hwork
  rw [Slice.toList_ofBytes] at htaken
  exact ⟨start, calls, o'.codec, CompressorOptions.setUp_ok hsetUp, rfl, hkept.steps,
    hkept.protocol, hclosed, htaken, hkept.output⟩

end Ways

/-! ## Writers and readers -/

section Histories

variable {κ : Type} [Codec κ] {memory : Memory} {make : CompressorOptions → Except Error κ}
  {turns : Nat} {o : CompressorOptions} {log : Log}

/-- A writer that was just created is ready, and nothing has been written to its target. -/
theorem CompressingWriter.created {ω : Type} [Writer ω] {writer : ω} {log' : Log}
    {first : CompressingWriter κ (Observed ω)}
    (h : create memory make o (Observed.new writer) log = (.ok first, log')) :
    ∃ start, make o = .ok start ∧ Ready start [] first.session ∧ Clean [] first := by
  obtain ⟨start, hmake, rfl⟩ := create_ok h
  exact ⟨start, hmake, ready_new start o.destinationLength_pos,
    clean_new start writer o.destinationLength⟩

/-- **A writer whose frame was finished**, after a history without a failure, has put into it all
that was written. -/
theorem CompressingWriter.finished_ok {ω : Type} [Writer ω] {start : κ}
    {first c c' : CompressingWriter κ (Observed ω)} {done : List UInt8}
    (hfirst : Ready start [] first.session) (hclean : Clean [] first)
    (hwritten : Written first done c) (hfinish : finishFrame turns c = .ok () c') :
    ∃ calls, Steps start calls c'.session.codec ∧ Each Protocol calls ∧ Closed calls
      ∧ takenBy calls = done ∧ acceptedBy c'.writer.calls = givenBy calls := by
  obtain ⟨calls, hready, -, htaken, hc⟩ := hwritten.clean hfirst hclean
  obtain ⟨calls', hshut, htaken', hc'⟩ := (finishFrame_ensures turns hready).of_ok hfinish
  obtain ⟨hclean', hempty⟩ := hc' hc
  refine ⟨calls', hshut.steps, hshut.protocol, hshut.closed, htaken'.trans htaken, ?_⟩
  rw [hclean'.output, hempty]
  exact (List.append_nil _).symm

/-- A writer that has no failure behind it lets go by finishing the frame. -/
theorem CompressingWriter.Written.release_eq {ω : Type} [Writer ω] {start : κ}
    {first c c' : CompressingWriter κ (Observed ω)} {done : List UInt8}
    (hwritten : Written first done c) (hfirst : Ready start [] first.session)
    (hclean : Clean [] first) (hframe : finishFrame turns c = .ok () c') :
    c.release turns = c' := by
  obtain ⟨calls, hready, -⟩ := hwritten.clean hfirst hclean
  have hunfinished : c.session.isFinished = false := by
    rw [Session.isFinished, hready.active]
    rfl
  simp only [release, hunfinished, Bool.false_eq_true, if_false, hframe]

end Histories

section Records

variable {κ : Type} [Codec κ] {make : CompressorOptions → Except Error κ} {turns : Nat}
  {o : CompressorOptions} {start : Recorded κ}

/-- The codec of a settled session keeps to the protocol. -/
theorem CompressingWriter.Settled.disciplined {s : Session (Recorded κ)} (h : Settled start s)
    (hmake : tracing make o = .ok start) : Disciplined s.codec.record := by
  obtain ⟨calls, h | h⟩ := h
  · exact h.steps.disciplined hmake h.protocol
  · exact h.steps.disciplined hmake h.protocol

/-- **A writer keeps to the protocol**, whatever has failed, until it is finished or let go of. -/
theorem CompressingWriter.Used.disciplined {ω : Type} [Writer ω]
    {first c : CompressingWriter (Recorded κ) (Observed ω)} (hused : Used first c)
    (hfirst : Ready start [] first.session) (hmake : tracing make o = .ok start) (turns : Nat) :
    Disciplined c.session.codec.record ∧ Disciplined (c.finish turns).2.session.codec.record
      ∧ Disciplined (c.release turns).session.codec.record := by
  obtain ⟨calls, hc, -⟩ := hused.ready hfirst
  have hsettled : Settled start c.session := ⟨calls, Or.inl hc⟩
  exact ⟨hsettled.disciplined hmake, (finish_settled hc turns).disciplined hmake,
    (release_settled hsettled turns).disciplined hmake⟩

/-- The record of a writer whose frame was finished is complete. -/
theorem CompressingWriter.Written.complete {ω : Type} [Writer ω]
    {first c c' : CompressingWriter (Recorded κ) (Observed ω)} {done : List UInt8}
    (hwritten : Written first done c) (hfirst : Ready start [] first.session)
    (hclean : Clean [] first) (hmake : tracing make o = .ok start)
    (hframe : finishFrame turns c = .ok () c') :
    Complete c'.session.codec.record done (acceptedBy c'.writer.calls) := by
  obtain ⟨calls, hsteps, hprotocol, hclosed, htaken, hdelivered⟩ :=
    finished_ok hfirst hclean hwritten hframe
  exact hsteps.complete hmake hprotocol hclosed htaken hdelivered

/-- A reader keeps to the protocol, and does not flush. -/
theorem CompressingReader.Kept.disciplined {ρ : Type} {calls : List StepCall}
    {served : List UInt8} {c : CompressingReader (Recorded κ) (Observed ρ)}
    (h : Kept start calls served c) (hmake : tracing make o = .ok start) :
    Disciplined c.session.codec.record ∧ Unflushed c.session.codec.record := by
  have hunbroken : Unbroken start c.session.codec := by
    rcases h.session with hopen | ⟨hshut, -⟩
    · exact ⟨calls, hopen.steps, hopen.protocol, h.unflushed⟩
    · exact ⟨calls, hshut.steps, hshut.protocol, h.unflushed⟩
  exact hunbroken.disciplined hmake

/-- **A reader that gives nothing**, although there is room, has closed the frame around all that it
received. -/
theorem CompressingReader.Kept.complete {ρ : Type} [Reader ρ] {calls : List StepCall}
    {served : List UInt8} {c c' : CompressingReader (Recorded κ) (Observed ρ)} {room : Nat}
    {b : ByteArray} (h : Kept start calls served c) (hmake : tracing make o = .ok start)
    (hread : c.read turns room = (.ok b, c')) (hroom : room ≠ 0) (hsize : b.size = 0) :
    Complete c'.session.codec.record (receivedBy c'.reader.calls) served
      ∧ Exhausted c'.reader.calls := by
  obtain ⟨calls', hkept, hshut, hnil, htaken, hex⟩ := h.read_nothing hread hroom hsize
  refine ⟨hshut.steps.complete hmake hshut.protocol hshut.closed htaken ?_, hex⟩
  rw [hkept.output_eq, hnil, List.append_nil]

end Records

/-! ## The contract -/

/-- **Compression that reports success is complete, and all compression keeps to the protocol.** For
every codec, reader and writer: whatever fails in a stream, a one-shot operation, a history of a
writer that ends in finishing or letting go of it, or a history of reads, the calls of the codec
keep to the protocol. If a stream or a one-shot operation succeeds, if a writer is finished or let
go of without any failure, or if a reader gives nothing although there is room, then the calls used
every byte of the source once and in order, and closed the frame after that with the last of them;
and what they put out was delivered. -/
theorem compression_is_complete {κ : Type} [Codec κ] (make : CompressorOptions → Except Error κ)
    (memory : Memory) (o : CompressorOptions) (log : Log) :
    (∀ (ε : Type) [Reader ε] [Writer ε] (ends : ε) (turns : Nat)
        (t : Transfer (Recorded κ) (Observed ε)),
      Stream.compress memory (tracing make) turns o (Observed.new ends) log = t →
      (∀ codec, t.codec = some codec → Disciplined codec.record ∧ Unflushed codec.record)
      ∧ (t.result = .ok () → ∃ codec, t.codec = some codec
        ∧ Complete codec.record (receivedBy t.ends.calls) (acceptedBy t.ends.calls)
        ∧ Exhausted t.ends.calls))
    ∧ (∀ (source : ByteArray) (turns : Nat) (c : Conversion (Recorded κ)),
      OneShot.compress memory (tracing make) turns o source log = c →
      (∀ codec, c.codec = some codec → Disciplined codec.record ∧ Unflushed codec.record)
      ∧ (∀ bytes, c.result = .ok bytes → ∃ codec, c.codec = some codec
        ∧ Complete codec.record source.data.toList bytes.data.toList))
    ∧ (∀ (ω : Type) [Writer ω] (writer : ω) (log' : Log)
        (first : CompressingWriter (Recorded κ) (Observed ω)),
      CompressingWriter.create memory (tracing make) o (Observed.new writer) log
        = (.ok first, log') →
      (∀ (c : CompressingWriter (Recorded κ) (Observed ω)) (turns : Nat),
        CompressingWriter.Used first c →
        Disciplined c.session.codec.record
        ∧ Disciplined (c.finish turns).2.session.codec.record
        ∧ Disciplined (c.release turns).session.codec.record)
      ∧ (∀ (c c' : CompressingWriter (Recorded κ) (Observed ω)) (done : List UInt8) (turns : Nat),
        CompressingWriter.Written first done c → c.finish turns = (.ok (), c') →
        Complete c'.session.codec.record done (acceptedBy c'.writer.calls))
      ∧ (∀ (c c' : CompressingWriter (Recorded κ) (Observed ω)) (done : List UInt8) (turns : Nat),
        CompressingWriter.Written first done c →
        CompressingWriter.finishFrame turns c = .ok () c' →
        c.release turns = c' ∧ Complete c'.session.codec.record done (acceptedBy c'.writer.calls)))
    ∧ (∀ (ρ : Type) [Reader ρ] (reader : ρ) (log' : Log)
        (first : CompressingReader (Recorded κ) (Observed ρ)),
      CompressingReader.create memory (tracing make) o (Observed.new reader) log
        = (.ok first, log') →
      ∀ (c : CompressingReader (Recorded κ) (Observed ρ)) (served : List UInt8),
      CompressingReader.Asked first served c →
      Disciplined c.session.codec.record ∧ Unflushed c.session.codec.record
      ∧ ∀ (c' : CompressingReader (Recorded κ) (Observed ρ)) (turns room : Nat) (b : ByteArray),
        c.read turns room = (.ok b, c') → room ≠ 0 → b.size = 0 →
        Complete c'.session.codec.record (receivedBy c'.reader.calls) served
          ∧ Exhausted c'.reader.calls) := by
  refine ⟨?_, ?_, ?_, ?_⟩
  · intro ε _ _ ends turns t ht
    constructor
    · intro codec hcodec
      subst ht
      obtain ⟨start, hmake, h⟩ := Stream.compress_codec hcodec
      exact h.disciplined hmake
    · intro hok
      obtain ⟨hex, start, calls, codec, hmake, hcodec, hsteps, hprotocol, hclosed, htaken,
        hdelivered⟩ := Stream.compress_ok ht hok
      exact ⟨codec, hcodec, hsteps.complete hmake hprotocol hclosed htaken hdelivered, hex⟩
  · intro source turns c hc
    constructor
    · intro codec hcodec
      subst hc
      obtain ⟨start, hmake, h⟩ := OneShot.compress_codec hcodec
      exact h.disciplined hmake
    · intro bytes hok
      obtain ⟨start, calls, codec, hmake, hcodec, hsteps, hprotocol, hclosed, htaken, hgiven⟩ :=
        OneShot.compress_ok hc hok
      exact ⟨codec, hcodec, hsteps.complete hmake hprotocol hclosed htaken hgiven⟩
  · intro ω _ writer log' first hfirst
    obtain ⟨start, hmake, hready, hclean⟩ := CompressingWriter.created hfirst
    refine ⟨?_, ?_, ?_⟩
    · intro c turns hused
      exact hused.disciplined hready hmake turns
    · intro c c' done turns hwritten hfinish
      unfold CompressingWriter.finish at hfinish
      split at hfinish <;> cases hfinish
      next hframe => exact hwritten.complete hready hclean hmake hframe
    · intro c c' done turns hwritten hframe
      exact ⟨hwritten.release_eq hready hclean hframe,
        hwritten.complete hready hclean hmake hframe⟩
  · intro ρ _ reader log' first hfirst c served hasked
    obtain ⟨start, hmake, rfl⟩ := CompressingReader.create_ok hfirst
    obtain ⟨calls, hkept⟩ := hasked.kept
      (CompressingReader.kept_new start reader o.sourceLength o.destinationLength_pos)
    obtain ⟨hdisciplined, hunflushed⟩ := hkept.disciplined hmake
    refine ⟨hdisciplined, hunflushed, ?_⟩
    intro c' turns room b hread hroom hsize
    exact hkept.complete hmake hread hroom hsize

/-! ### Two bytes in a frame that ends with a third -/

namespace Trailed

/-- The codec whose frames are the content and one byte after it. -/
def codec : CopyingCodec := ⟨none, .ofBytes ⟨#[9]⟩⟩

def make (_ : CompressorOptions) : Except Error CopyingCodec := .ok codec

def source : ByteArray := ⟨#[1, 2]⟩

def session : Session (Recorded CopyingCodec) := ⟨⟨codec, #[]⟩, ⟨.empty, 131591⟩, .active⟩

def ends : Ends Slice ByteArray := ⟨.ofBytes source, .empty⟩

def writer : CompressingWriter (Recorded CopyingCodec) (Observed ByteArray) :=
  ⟨.new .empty, session⟩

def reader : CompressingReader (Recorded CopyingCodec) (Observed Slice) :=
  ⟨.new (.ofBytes source), ⟨.empty, 0, 131072⟩, session, .empty, false, false⟩

end Trailed

/-- The record of two bytes and a third is complete, whichever way they are compressed. -/
theorem compression_is_complete_of_trailed :
    let t := Stream.compress .machine (tracing Trailed.make) 9 {} (Observed.new Trailed.ends) #[]
    let c := OneShot.compress .machine (tracing Trailed.make) 9 {} Trailed.source #[]
    let w := (Trailed.writer.write 9 (.ofBytes Trailed.source)).2
    let r := ((Trailed.reader.read 9 4).2.read 9 4).2
    (∃ codec, t.codec = some codec
        ∧ Complete codec.record (receivedBy t.ends.calls) (acceptedBy t.ends.calls)
        ∧ Exhausted t.ends.calls)
      ∧ (∃ codec, c.codec = some codec ∧ Complete codec.record [1, 2] [1, 2, 9])
      ∧ Complete (w.finish 9).2.session.codec.record [1, 2] (acceptedBy (w.finish 9).2.writer.calls)
      ∧ Complete (w.release 9).session.codec.record [1, 2] (acceptedBy (w.release 9).writer.calls)
      ∧ Complete (r.read 9 4).2.session.codec.record (receivedBy (r.read 9 4).2.reader.calls)
        [1, 2, 9]
      ∧ Exhausted (r.read 9 4).2.reader.calls := by
  obtain ⟨hstream, honeShot, hwriter, hreader⟩ :=
    compression_is_complete Trailed.make .machine {} #[]
  have hwrite : Trailed.writer.write 9 (.ofBytes Trailed.source)
      = (.ok 2, (Trailed.writer.write 9 (.ofBytes Trailed.source)).2) := rfl
  obtain ⟨-, hfinish, hrelease⟩ := hwriter ByteArray .empty #[] Trailed.writer rfl
  have hwritten := CompressingWriter.Written.write .nil hwrite
  refine ⟨(hstream _ Trailed.ends 9 _ rfl).2 rfl,
    (honeShot Trailed.source 9 _ rfl).2 ⟨#[1, 2, 9]⟩ rfl, ?_, ?_, ?_⟩
  · exact hfinish _ _ [1, 2] 9 hwritten rfl
  · exact (hrelease _ _ [1, 2] 9 hwritten rfl).2
  · exact (hreader Slice (.ofBytes Trailed.source) #[] Trailed.reader rfl _ _
      ((CompressingReader.Asked.nil.read 9 4).read 9 4)).2.2 _ 9 4 ⟨#[]⟩ rfl (by decide) rfl

end Zstandard
