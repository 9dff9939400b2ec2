import Zstandard.Proofs.Agreement
import Zstandard.Proofs.EncodingAdapters
import Zstandard.Proofs.Opening

/-!
# The round trip

Whatever way a source is compressed, and whatever way the frame is decompressed, the source comes
back. The two halves meet at the frame: a codec that encodes the source closes one, whichever
passage drives it (`Passage.compress_settles`), and a codec that gets the source back from that
frame does so through every passage (`Passage.decompress_restores`).
-/

namespace Zstandard

/-- A codec gets `x` back from `frame`, however it is fed. -/
structure Restores {δ : Type} [Codec δ] (start : δ) (frame x : List UInt8) : Prop where
  /-- No call that feeds it the frame fails. -/
  succeeds : ∀ {calls : List StepCall} {codec : δ}, Steps start calls codec →
    Each (Feeds frame) calls → ∀ c ∈ calls, c.succeeded = true
  /-- The calls put out a beginning of `x`. -/
  given_prefix : ∀ {calls : List StepCall} {codec : δ}, Steps start calls codec →
    Each (Feeds frame) calls → givenBy calls <+: x
  /-- A call that has input and leaves room uses something. -/
  progress : ∀ {calls : List StepCall} {codec : δ}, Steps start calls codec →
    Each (Feeds frame) calls → ∀ c ∈ calls, c.input.size ≠ 0 → c.LeavesRoom → c.taken ≠ []
  /-- When all of the frame has been used and there is room left, all of `x` has been put out, and
  the frame is reported complete. -/
  complete : ∀ {calls : List StepCall} {codec : δ}, Steps start calls codec →
    Each (Feeds frame) calls → takenBy calls = frame →
    (∀ last ∈ calls.getLast?, last.LeavesRoom) → givenBy calls = x ∧ AtBoundary calls

/-- What one codec puts into a frame, however it is driven, the other gets back. -/
structure Inverse {κ δ : Type} [Codec κ] [Codec δ] (c : κ) (d : δ) (x : List UInt8)
    (bound : Nat → Nat) : Prop extends Encodes c x bound where
  /-- The frame that the calls have closed holds `x`. -/
  restores : ∀ {calls : List StepCall} {codec : κ}, Encoding c x calls codec → Closed calls →
    Restores d (givenBy calls) x

section Restores

variable {δ : Type} [Codec δ] {start : δ} {frame x : List UInt8}

/-- A codec that gets something back from a frame takes the frame. -/
theorem Restores.digests (h : Restores start frame x) :
    Digests ({ codec := start } : Framed δ) frame x.length where
  succeeds {calls codec input room} hfeeding hroom hinput := by
    obtain ⟨result, codec', hstep⟩ : ∃ result codec',
        Codec.step codec input room .feed = (result, codec') := ⟨_, _, rfl⟩
    have hfeeds : Each (Feeds frame) (calls ++ [⟨input, room, .feed, result⟩]) :=
      each_snoc.mpr ⟨hfeeding.feeds, rfl, hroom, hinput⟩
    have hlast := h.succeeds (hfeeding.steps.snoc hstep).unframed hfeeds _
      (List.mem_append_right _ (List.mem_singleton_self _))
    cases result with
    | error e => cases hlast
    | ok s => exact ⟨s, codec', hstep⟩
  progress {calls codec codec' input room s} hfeeding hinput hstep hsize hroom hzero := by
    have hfeeding' := hfeeding.snoc (Nat.zero_lt_of_lt hroom) hinput hstep
    refine h.progress hfeeding'.steps.unframed hfeeding'.feeds _
      (List.mem_append_right _ (List.mem_singleton_self _)) hsize hroom ?_
    show input.toList.take s.consumed = []
    rw [hzero, List.take_zero]
  bounded hfeeding := (h.given_prefix hfeeding.steps.unframed hfeeding.feeds).length_le

/-- All that the frame decodes to is `x`, and no frame is open then. -/
theorem Restores.decodes {given : List UInt8} {f : Framed δ} (h : Restores start frame x)
    (hd : Decodes { codec := start } frame given f) : given = x ∧ f.inFrame = false := by
  obtain ⟨calls, hfeeding, hquiescent, htaken, hgiven⟩ := hd
  obtain ⟨hx, hboundary⟩ := h.complete hfeeding.steps.unframed hfeeding.feeds htaken
    fun last hlast => (hquiescent last hlast).1
  exact ⟨hgiven.symm.trans hx, (hfeeding.steps.inFrame_eq_false_iff rfl).mpr hboundary⟩

end Restores

namespace Passage

/-- **Every passage gets back** what there is to be got from the frame it brings. -/
theorem decompress_restores {δ : Type} [Codec δ] {make : DecompressorOptions → Except Error δ}
    {memory : Memory} {o : DecompressorOptions} {d : δ} {frame x : List UInt8}
    (hrestores : Restores d frame x) (ho : o.validate = .ok ()) (hmake : make o = .ok d)
    (p : Passage) (hp : p.Brings frame)
    (hmemory : p.Granted memory o.sourceLength o.destinationLength x.length) (log : Log) :
    Settles (p.decompress memory (framing make) o log) (.ok x) := by
  rcases decompress_settles hrestores.digests Framed.ioCause_of_endOfInput ho
    (framing_eq hmake) p hp hmemory log with ⟨y, hsettles⟩ | ⟨e, hsettles, given, f, hdecodes, he⟩
  · obtain ⟨turns, hturns⟩ := hsettles.reached
    obtain ⟨f, hdecodes, -⟩ := decodesTo_of_ok hmake p hp hturns
    obtain ⟨rfl, -⟩ := hrestores.decodes hdecodes
    exact hsettles
  · -- a frame that is open at the end would not have been reported complete
    obtain ⟨-, hclosed⟩ := hrestores.decodes hdecodes
    rw [(Framed.endOfInput_error he).1] at hclosed
    cases hclosed

end Passage

/-! ## Compression -/

namespace CompressingWriter

variable {κ ω : Type} [Codec κ] {start : κ} {source : List UInt8} {bound : Nat → Nat}
  {c : CompressingWriter κ (Observed ω)} {s : Slice} {rest : List Request}

/-- A writer that has put the source into the frame up to what is still requested. -/
def Awaits (start : κ) (source : List UInt8) (requests : List Request)
    (c : CompressingWriter κ (Observed ω)) : Prop :=
  ∃ calls, Engaged start source calls c ∧ Unfinished calls
    ∧ takenBy calls ++ requested requests = source

theorem Awaits.passed (h : Awaits start source (.write s :: rest) c) (hs : s.isEmpty = true) :
    Awaits start source rest c := by
  obtain ⟨calls, hengaged, hunfinished, hsource⟩ := h
  rw [requested_cons, Request.bytes, toList_of_isEmpty hs, List.nil_append] at hsource
  exact ⟨calls, hengaged, hunfinished, hsource⟩

section Settles

variable [Writer ω] {fine : ω → Prop}

/-- A write comes to an end, and brings the writer closer to having served its requests. -/
theorem Awaits.write_settles (hcodec : Encodes start source bound) (hfine : Obliges fine)
    (h : Awaits start source (.write s :: rest) c) (hc : fine c.writer.ends)
    (hne : s.isEmpty = false) :
    ∃ n c', Settles (fun turns => c.write turns s) (.ok n, c') ∧ n ≠ 0
      ∧ Awaits start source (.write (s.drop n) :: rest) c' ∧ fine c'.writer.ends := by
  obtain ⟨calls, hengaged, hunfinished, hsource⟩ := h
  rw [requested_cons, Request.bytes, ← List.append_assoc] at hsource
  obtain ⟨n, calls', c', hwrite, hn, hc', hengaged', hunfinished', htaken⟩ :=
    CompressingWriter.write_settles hcodec hfine hengaged hunfinished ⟨_, hsource⟩ hc hne
  refine ⟨n, c', hwrite, hn, ⟨calls', hengaged', hunfinished', ?_⟩, hc'⟩
  rw [htaken, requested_cons, Request.bytes, Slice.toList_drop, List.append_assoc,
    ← List.append_assoc (s.toList.take n), List.take_append_drop, ← List.append_assoc, hsource]

/-- A flush comes to an end. -/
theorem Awaits.flush_settles (hcodec : Encodes start source bound) (hfine : Obliges fine)
    (h : Awaits start source (.flush :: rest) c) (hc : fine c.writer.ends) :
    ∃ c', Settles (fun turns => c.flush turns) (.ok (), c') ∧ Awaits start source rest c'
      ∧ fine c'.writer.ends := by
  obtain ⟨calls, hengaged, hunfinished, hsource⟩ := h
  obtain ⟨calls', c', hflush, hc', hengaged', hunfinished', htaken⟩ :=
    CompressingWriter.flush_settles hcodec hfine hengaged hunfinished hc
  exact ⟨c', hflush, ⟨calls', hengaged', hunfinished', htaken.symm ▸ hsource⟩, hc'⟩

end Settles

end CompressingWriter

namespace CompressingReader

variable {κ ρ : Type} [Codec κ] {start : κ} {source : List UInt8} {bound : Nat → Nat}
  {still : List UInt8 → ρ → Prop} {served : List UInt8} {c : CompressingReader κ (Observed ρ)}

/-- A reader that goes on, over a reader that still gives the rest of the source. -/
def Draws (start : κ) (still : List UInt8 → ρ → Prop) (source served : List UInt8)
    (c : CompressingReader κ (Observed ρ)) : Prop :=
  ∃ calls rest, Kept start calls served c ∧ Backed still source rest c

theorem Draws.length_le (hcodec : Encodes start source bound)
    (h : Draws start still source served c) : served.length ≤ bound 0 := by
  obtain ⟨calls, rest, hkept, hbacked⟩ := h
  have hbounded := hcodec.bounded (hkept.encoding hbacked)
  rw [count_of_unflushed hkept.unflushed, hkept.output_eq, List.length_append] at hbounded
  omega

theorem Draws.read_settles [Reader ρ] (hcodec : Encodes start source bound)
    (hstill : Supplies still) (h : Draws start still source served c) {room : Nat}
    (hroom : room ≠ 0) :
    ∃ b c', Settles (fun turns => c.read turns room) (.ok b, c')
      ∧ (b.size ≠ 0 → Draws start still source (served ++ b.data.toList) c')
      ∧ (b.size = 0 → ∃ calls codec, Encoding start source calls codec ∧ Closed calls
          ∧ served = givenBy calls) := by
  obtain ⟨calls, rest, hkept, hbacked⟩ := h
  exact CompressingReader.read_settles hcodec hstill hkept hbacked hroom

end CompressingReader

namespace Passage

/-- The options that a passage makes its codec with. -/
def compressorOptions : Passage → CompressorOptions → CompressorOptions
  | .oneShot data, o => o.orPledge data.size
  | _, o => o

section Run

variable {κ : Type} [Codec κ]

/-- Compresses what the passage brings. -/
def compress (p : Passage) (memory : Memory) (make : CompressorOptions → Except Error κ)
    (o : CompressorOptions) (log : Log) (turns : Nat) : Except (Halt Error) (List UInt8) :=
  match p with
  | .oneShot data =>
    (OneShot.compress memory make turns o data log).result.map fun bytes => bytes.data.toList
  | @stream _ _ _ _ r w =>
    let t := Stream.compress memory make turns o (Observed.new (Ends.mk r w)) log
    t.result.map fun _ => acceptedBy t.ends.calls
  | @writer _ _ w requests =>
    match CompressingWriter.create memory make o (Observed.new w) log with
    | (.error e, _) => .error (.failed e)
    | (.ok c, _) =>
      match serveEach (fun turns c s => c.write turns s) (fun turns c => c.flush turns) turns c
        requests with
      | .error h => .error h
      | .ok c =>
        match c.finish turns with
        | (.ok (), c) => .ok (acceptedBy c.writer.calls)
        | (.error h, _) => .error h
  | @reader _ _ r rooms =>
    match CompressingReader.create memory make o (Observed.new r) log with
    | (.error e, _) => .error (.failed e)
    | (.ok c, _) => readEvery (fun turns c room => c.read turns room) rooms turns 0 c []

end Run

section Settles

variable {κ : Type} [Codec κ] {memory : Memory} {make : CompressorOptions → Except Error κ}
  {o : CompressorOptions} {log : Log} {start : κ} {source : List UInt8} {bound : Nat → Nat}

/-- The run comes to a frame that the codec has closed around the source. -/
def Frames (start : κ) (source : List UInt8) (run : Nat → Except (Halt Error) (List UInt8)) :
    Prop :=
  ∃ calls codec, Encoding start source calls codec ∧ Closed calls
    ∧ Settles run (.ok (givenBy calls))

theorem frames_oneShot (hcodec : Encodes start source bound) (ho : o.validate = .ok ())
    (hmemory : memory.Grows o.destinationLength (bound 0)) {data : ByteArray}
    (hmake : make (o.orPledge data.size) = .ok start) (hp : (oneShot data).Brings source) :
    Frames start source ((oneShot data).compress memory make o log) := by
  obtain rfl : data.data.toList = source := hp
  obtain ⟨log', hopens⟩ := OneShot.compress_opens ho hmemory.grants_unit data hmake log
  have hfed := OneShot.fed_new start (.ofBytes data) log' o.destinationLength_pos
  rw [Slice.toList_ofBytes] at hfed
  obtain ⟨calls, o₁, hsettles, he, hclosed, houtput⟩ :=
    OneShot.compress_settles hcodec hfed hmemory
  refine ⟨calls, o₁.codec, he, hclosed, hsettles.imp fun turns hrun => ?_⟩
  simp only [compress, hopens, hrun]
  exact congrArg Except.ok houtput

theorem frames_stream {ρ ω : Type} [Reader ρ] [Writer ω] (hcodec : Encodes start source bound)
    (ho : o.validate = .ok ()) (hmemory : memory.Serves o.sourceLength o.destinationLength)
    (hmake : make o = .ok start) {r : ρ} {w : ω} (hp : (stream r w).Brings source) :
    Frames start source ((stream r w).compress memory make o log) := by
  obtain ⟨⟨still, hstill, hreader⟩, fine, hfine, hwriter⟩ := hp
  obtain ⟨log', hopens⟩ := Stream.compress_opens ho hmemory hmake (Observed.new (Ends.mk r w)) log
  have hfed := Pump.fed_new start (Ends.mk r w) log' o.sourceLength o.destinationLength_pos
  obtain ⟨calls, p₁, hsettles, he, hclosed, hdelivered⟩ := Pump.compress_settles hcodec
    hstill.beside (fun rest => hfine.beside still rest) hfed unended_nil ⟨hreader, hwriter⟩ rfl
    o.sourceLength_pos
  refine ⟨calls, p₁.codec, he, hclosed, hsettles.imp fun turns hrun => ?_⟩
  simp only [compress, hopens, hrun]
  exact congrArg Except.ok hdelivered

theorem frames_writer {ω : Type} [Writer ω] (hcodec : Encodes start source bound)
    (ho : o.validate = .ok ()) (hmemory : memory.grants o.destinationLength = true)
    (hmake : make o = .ok start) {w : ω} {requests : List Request}
    (hp : (writer w requests).Brings source) :
    Frames start source ((writer w requests).compress memory make o log) := by
  obtain ⟨hrequests, fine, hfine, hwriter⟩ := hp
  obtain ⟨log', hopens⟩ := CompressingWriter.create_opens ho hmemory hmake (Observed.new w) log
  obtain ⟨c, hserve, ⟨calls, h, hunfinished, hsource⟩, hc⟩ := serveEach_settles
    (Q := fun rest c => CompressingWriter.Awaits start source rest c ∧ fine c.writer.ends)
    (fun hq hne => hq.1.write_settles hcodec hfine hq.2 hne)
    (fun hq hs => ⟨hq.1.passed hs, hq.2⟩)
    (fun hq => hq.1.flush_settles hcodec hfine hq.2)
    requests ⟨⟨[], ⟨CompressingWriter.ready_new start o.destinationLength_pos,
      CompressingWriter.clean_new start w o.destinationLength, each_nil⟩, unfinished_nil,
      hrequests⟩, hwriter⟩
  rw [requested_nil, List.append_nil] at hsource
  obtain ⟨calls', c', hfinish, he, hclosed, haccepted⟩ :=
    CompressingWriter.finish_settles hcodec hfine h hsource hc
  refine ⟨calls', c'.session.codec, he, hclosed, hserve.imp₂ hfinish fun turns hn hm => ?_⟩
  simp only [compress, hopens, hn, hm, haccepted]

theorem frames_reader {ρ : Type} [Reader ρ] (hcodec : Encodes start source bound)
    (ho : o.validate = .ok ()) (hmemory : memory.Serves o.sourceLength o.destinationLength)
    (hmake : make o = .ok start) {r : ρ} {rooms : Nat → Nat} (hp : (reader r rooms).Brings source) :
    Frames start source ((reader r rooms).compress memory make o log) := by
  obtain ⟨⟨still, hstill, hreader⟩, hrooms⟩ := hp
  obtain ⟨log', hopens⟩ := CompressingReader.create_opens ho hmemory hmake (Observed.new r) log
  rcases readEvery_settles (F := fun _ => False)
    (Q := CompressingReader.Draws start still source) hrooms (fun hq => hq.length_le hcodec)
    (fun hq hroom => Or.inl (hq.read_settles hcodec hstill hroom)) (k := 0)
    ⟨[], source, CompressingReader.kept_new start r o.sourceLength o.destinationLength_pos,
      ⟨hreader, rfl, o.sourceLength_pos, fun hend => by cases hend⟩⟩ with
    ⟨out, hsettles, calls, codec, he, hclosed, rfl⟩ | ⟨e, -, hnone⟩
  · refine ⟨calls, codec, he, hclosed, hsettles.imp fun turns hrun => ?_⟩
    simp only [compress, hopens, hrun]
  · -- compression has no way to fail here
    exact hnone.elim

/-- **Every passage closes a frame** around the source it brings. -/
theorem compress_settles (hcodec : Encodes start source bound) (ho : o.validate = .ok ())
    (p : Passage) (hmake : make (p.compressorOptions o) = .ok start) (hp : p.Brings source)
    (hmemory : p.Granted memory o.sourceLength o.destinationLength (bound 0)) (log : Log) :
    Frames start source (p.compress memory make o log) := by
  cases p with
  | oneShot data => exact frames_oneShot hcodec ho hmemory hmake hp
  | stream reader writer => exact frames_stream hcodec ho hmemory hmake hp
  | writer writer requests => exact frames_writer hcodec ho hmemory hmake hp
  | reader reader rooms => exact frames_reader hcodec ho hmemory hmake hp

end Settles

end Passage

/-- **The round trip.** Let a source be such that what one codec puts into a frame, the other gets
back. A passage that brings the source, with valid options that make the first codec, comes to some
frame; and a passage that brings that frame, with valid options that make the second, comes to the
source. All that is asked of memory is that it grants what the two passages ask for. -/
theorem round_trip {κ δ : Type} [Codec κ] [Codec δ] (x : List UInt8) (bound : Nat → Nat) (c : κ)
    (d : δ) (hinverse : Inverse c d x bound) (make : CompressorOptions → Except Error κ)
    (make' : DecompressorOptions → Except Error δ) (o : CompressorOptions)
    (o' : DecompressorOptions) (ho : o.validate = .ok ()) (ho' : o'.validate = .ok ())
    (hmake' : make' o' = .ok d) (memory memory' : Memory) (p : Passage)
    (hmake : make (p.compressorOptions o) = .ok c) (hp : p.Brings x)
    (hmemory : p.Granted memory o.sourceLength o.destinationLength (bound 0)) (log : Log) :
    ∃ frame, Settles (p.compress memory make o log) (.ok frame)
      ∧ ∀ (p' : Passage) (log' : Log), p'.Brings frame →
        p'.Granted memory' o'.sourceLength o'.destinationLength x.length →
        Settles (p'.decompress memory' (framing make') o' log') (.ok x) := by
  -- the calls that closed the frame are all that the other half needs to know of it
  obtain ⟨calls, codec, he, hclosed, hsettles⟩ :=
    Passage.compress_settles hinverse.toEncodes ho p hmake hp hmemory log
  refine ⟨givenBy calls, hsettles, fun p' log' hp' hmemory' => ?_⟩
  exact Passage.decompress_restores (hinverse.restores he hclosed) ho' hmake' p' hp' hmemory' log'

/-! ### An echo and its echo -/

namespace Echo

variable {source : List UInt8} {calls : List StepCall} {completion : Completion}

/-- An answer to a call that has input and room uses something. -/
theorem Answers.taken_ne_nil {c : StepCall} (h : Answers completion c) (hinput : c.input.size ≠ 0)
    (hroom : c.LeavesRoom) : c.taken ≠ [] := by
  intro hnil
  have hpos : 0 < c.room := Nat.zero_lt_of_lt hroom
  have hgiven : c.given = (c.input.take c.room).toList := by
    unfold StepCall.given
    rw [show c.result = _ from h]
    rfl
  rw [← h.given_eq, hgiven, ← List.length_eq_zero_iff, Slice.length_toList, Slice.size_take]
    at hnil
  omega

theorem Answers.succeeded {c : StepCall} (h : Answers completion c) : c.succeeded = true := by
  unfold StepCall.succeeded
  rw [show c.result = _ from h]

/-- An echo that completes a frame with each step gets back what such an echo has put out. -/
theorem inverse : Inverse (⟨.done⟩ : Echo) (⟨.done⟩ : Echo) source fun _ => source.length where
  succeeds he c hc := ((answers he.steps).2 c hc).succeeded
  bounded he := by
    rw [givenBy_eq (answers he.steps).2]
    exact he.takenBy_prefix.length_le
  progress he c hc _ hinput hroom := ((answers he.steps).2 c hc).taken_ne_nil hinput hroom
  completes he c hc _ _ := ((answers he.steps).2 c hc).isDone_eq
  restores he hclosed := by
    rw [givenBy_eq (answers he.steps).2, he.takenBy_eq hclosed]
    exact {
      succeeds := fun hsteps _ c hc => ((answers hsteps).2 c hc).succeeded
      given_prefix := fun hsteps hfeeds => by
        rw [givenBy_eq (answers hsteps).2]
        exact takenBy_prefix hfeeds
      progress := fun hsteps _ c hc hinput hroom =>
        ((answers hsteps).2 c hc).taken_ne_nil hinput hroom
      complete := fun hsteps _ htaken _ =>
        ⟨(givenBy_eq (answers hsteps).2).trans htaken, atBoundary (answers hsteps).2⟩ }

end Echo

/-- A pair makes the round trip, whichever way it goes. -/
theorem round_trip_of_pair :
    Inverse (⟨.done⟩ : Echo) (⟨.done⟩ : Echo) [1, 2] (fun _ => 2)
      ∧ ∀ p ∈ Echo.ways, ∃ frame,
        Settles (p.compress .machine (Echo.make .done) {} #[]) (.ok frame)
          ∧ ∀ p' : Passage, p'.Brings frame →
            Settles (p'.decompress .machine (framing (Echo.make .done)) {} #[]) (.ok [1, 2]) := by
  have hinverse : Inverse (⟨.done⟩ : Echo) (⟨.done⟩ : Echo) [1, 2] (fun _ => 2) := Echo.inverse
  refine ⟨hinverse, fun p hp => ?_⟩
  obtain ⟨frame, hframe, hback⟩ := round_trip [1, 2] (fun _ => 2) ⟨.done⟩ ⟨.done⟩ hinverse
    (Echo.make .done) (Echo.make .done) {} {} rfl rfl rfl .machine .machine p rfl
    (Echo.ways_bring p hp) (p.granted_machine (by decide) (by decide)) #[]
  exact ⟨frame, hframe,
    fun p' hp' => hback p' #[] hp' (p'.granted_machine (by decide) (by decide))⟩

end Zstandard
