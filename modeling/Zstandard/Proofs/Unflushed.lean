import Zstandard.Collector
import Zstandard.Proofs.RoundTrip

/-!
# Drivers that ask for no flush

A driver that asks its codec for no flush cannot tell it from a codec whose flushes do nothing and
are done at once, `Codec.quiet`. So what is known of drivers of any codec is known of these without
a word about flushes: a codec that encodes a source when it is fed and its frame is closed, but
nobody knows what a flush does to it, encodes that source when it is quiet.
-/

namespace Zstandard

variable {κ : Type}

/-- A codec whose flushes do nothing. -/
@[reducible] def Codec.quiet (inner : Codec κ) : Codec κ where
  step codec input room directive :=
    match directive with
    | .feed => inner.step codec input room .feed
    | .flush => (.ok ⟨0, .empty, .done⟩, codec)
    | .finish => inner.step codec input room .finish
  endOfInput := inner.endOfInput
  consumed_le {codec codec' input room directive s} h := by
    cases directive with
    | feed => exact inner.consumed_le h
    | flush => cases h; exact Nat.zero_le _
    | finish => exact inner.consumed_le h
  produced_le {codec codec' input room directive s} h := by
    cases directive with
    | feed => exact inner.produced_le h
    | flush => cases h; exact Nat.zero_le _
    | finish => exact inner.produced_le h

/-! ## Loops that ask for no flush -/

section Loops

variable [inner : Codec κ]

theorem OneShot.feedAll_quiet (memory : Memory) : ∀ (turns : Nat) (remaining : Slice),
    @feedAll κ inner.quiet memory turns remaining = feedAll memory turns remaining := by
  intro turns
  induction turns with
  | zero => intro remaining; rfl
  | succ turns ih =>
      intro remaining
      simp only [feedAll, ih]
      rfl

theorem OneShot.finish_quiet (memory : Memory) : ∀ turns : Nat,
    @finish κ inner.quiet memory turns = finish memory turns := by
  intro turns
  induction turns with
  | zero => rfl
  | succ turns ih =>
      simp only [finish, ih]
      rfl

theorem OneShot.compress_quiet : @compress κ inner.quiet = compress := by
  funext memory make turns o source log
  simp only [compress, feedAll_quiet, finish_quiet]

section Pump

variable {ε : Type} [Writer ε]

theorem Pump.feedPending_quiet : ∀ (turns : Nat) (progress : Bool),
    @feedPending κ ε inner.quiet _ turns progress = feedPending turns progress := by
  intro turns
  induction turns with
  | zero => intro progress; rfl
  | succ turns ih =>
      intro progress
      simp only [feedPending, ih]
      rfl

theorem Pump.feedReader_quiet [Reader ε] : ∀ (turns : Nat) (fed : Bool),
    @feedReader κ ε inner.quiet _ _ turns fed = feedReader turns fed := by
  intro turns
  induction turns with
  | zero => intro fed; rfl
  | succ turns ih =>
      intro fed
      simp only [feedReader, feedPending_quiet, ih]

theorem Pump.feedRemainder_quiet : ∀ (turns : Nat) (fed : Bool),
    @feedRemainder κ ε inner.quiet _ turns fed = feedRemainder turns fed := by
  intro turns
  induction turns with
  | zero => intro fed; rfl
  | succ turns ih =>
      intro fed
      simp only [feedRemainder, feedPending_quiet, ih]

theorem Pump.finish_quiet : ∀ turns : Nat,
    @finish κ ε inner.quiet _ turns = finish turns := by
  intro turns
  induction turns with
  | zero => rfl
  | succ turns ih =>
      simp only [finish, ih]
      rfl

theorem Stream.compress_quiet [Reader ε] : @compress κ ε inner.quiet _ _ = compress := by
  funext memory make turns o ends log
  simp only [compress, Pump.readSource, Pump.feedReader_quiet, Pump.feedRemainder_quiet,
    Pump.feedPending_quiet, Pump.finish_quiet]

end Pump

theorem CompressingReader.prepare_quiet {ρ : Type} [Reader ρ] : ∀ (turns : Nat)
    (c : CompressingReader κ ρ), @prepare κ ρ inner.quiet _ turns c = prepare turns c := by
  intro turns
  induction turns with
  | zero => intro c; rfl
  | succ turns ih =>
      intro c
      simp only [prepare, ih]
      rfl

theorem CompressingReader.read_quiet {ρ : Type} [Reader ρ] :
    @read κ ρ inner.quiet _ = read := by
  funext turns room c
  simp only [read, prepare_quiet]

section Writer

variable {ω : Type} [Writer ω]

theorem CompressingWriter.writeChunk_quiet (input : Slice) : ∀ turns : Nat,
    @writeChunk κ ω inner.quiet _ input turns = writeChunk input turns := by
  intro turns
  induction turns with
  | zero => rfl
  | succ turns ih =>
      simp only [writeChunk, ih]
      rfl

theorem CompressingWriter.write_quiet : @write κ ω inner.quiet _ = write := by
  funext turns c input
  simp only [write, writeChunk_quiet]

theorem CompressingWriter.finish_quiet : @finish κ ω inner.quiet _ = finish := rfl

end Writer

theorem Collector.pushAll_quiet : ∀ (turns : Nat) (input : Slice),
    @pushAll κ inner.quiet turns input = pushAll turns input := by
  intro turns
  induction turns with
  | zero => intro input; rfl
  | succ turns ih =>
      intro input
      simp only [pushAll, ih]
      rfl

theorem Collector.finish_quiet : @finish κ inner.quiet = finish := rfl

end Loops

/-! ## Calls without the flushes -/

/-- The calls that do not ask for a flush. -/
def withoutFlushes (calls : List StepCall) : List StepCall :=
  calls.filter fun c => c.directive != .flush

section WithoutFlushes

variable {calls : List StepCall} {call : StepCall}

theorem mem_withoutFlushes :
    call ∈ withoutFlushes calls ↔ call ∈ calls ∧ call.directive ≠ .flush := by
  rw [withoutFlushes, List.mem_filter, bne_iff_ne]

theorem unflushed_withoutFlushes (calls : List StepCall) : Unflushed (withoutFlushes calls) :=
  fun _ hc => (mem_withoutFlushes.mp hc).2

theorem withoutFlushes_snoc (h : call.directive ≠ .flush) :
    withoutFlushes (calls ++ [call]) = withoutFlushes calls ++ [call] := by
  simp [withoutFlushes, h]

theorem withoutFlushes_snoc_flush (h : call.directive = .flush) :
    withoutFlushes (calls ++ [call]) = withoutFlushes calls := by
  simp [withoutFlushes, h]

theorem Unfinished.withoutFlushes (h : Unfinished calls) : Unfinished (withoutFlushes calls) :=
  fun c hc => h c (mem_withoutFlushes.mp hc).1

theorem Unclosed.withoutFlushes (h : Unclosed calls) : Unclosed (withoutFlushes calls) :=
  fun c hc => h c (mem_withoutFlushes.mp hc).1

/-- The frame is closed by the same call. -/
theorem Closed.withoutFlushes (h : Closed calls) : Closed (withoutFlushes calls) := by
  obtain ⟨before, last, rfl, hfinish, hdone⟩ := h
  have hlast : last.directive ≠ .flush := by
    rw [hfinish]
    decide
  exact ⟨_, last, withoutFlushes_snoc hlast, hfinish, hdone⟩

end WithoutFlushes

/-- What is known of the calls of a quiet codec: those that ask for no flush are calls of the codec
that put the same source into the same frame, and the others did nothing. -/
structure Quieted {κ : Type} [Codec κ] (start : κ) (source : List UInt8) (calls : List StepCall)
    (codec : κ) : Prop where
  /-- The codec has made those that ask for no flush. -/
  encoding : Encoding start source (withoutFlushes calls) codec
  /-- They have used the same. -/
  taken : takenBy (withoutFlushes calls) = takenBy calls
  /-- They have put out the same. -/
  given : givenBy (withoutFlushes calls) = givenBy calls
  /-- A flush is done at once. -/
  flushes : ∀ c ∈ calls, c.directive = .flush → c.result = .ok ⟨0, .empty, .done⟩

section Quieted

variable {κ : Type} [inner : Codec κ] {start codec codec' : κ} {source : List UInt8}
  {calls : List StepCall} {call : StepCall}

/-- A flush leaves everything as it is. -/
theorem Quieted.flushed (h : Quieted start source calls codec)
    (hdirective : call.directive = .flush) (hresult : call.result = .ok ⟨0, .empty, .done⟩) :
    Quieted start source (calls ++ [call]) codec := by
  have htaken : call.taken = [] := by
    unfold StepCall.taken
    rw [hresult]
    rfl
  have hgiven : call.given = [] := by
    unfold StepCall.given
    rw [hresult]
    rfl
  have hcalls : withoutFlushes (calls ++ [call]) = withoutFlushes calls :=
    withoutFlushes_snoc_flush hdirective
  refine ⟨hcalls ▸ h.encoding, ?_, ?_, ?_⟩
  · rw [hcalls, h.taken, takenBy_append, takenBy_cons, htaken]
    exact (List.append_nil _).symm
  · rw [hcalls, h.given, givenBy_append, givenBy_cons, hgiven]
    exact (List.append_nil _).symm
  · exact List.forall_mem_append.mpr ⟨h.flushes, List.forall_mem_singleton.mpr fun _ => hresult⟩

/-- A call that asks for no flush is made by the codec. -/
theorem Quieted.called (h : Quieted start source calls codec) {input : Slice} {room : Nat}
    {directive : Directive} {result : Except Error Step} (hdirective : directive ≠ .flush)
    (hstep : Codec.step codec input room directive = (result, codec'))
    (hprotocol : Protocol calls ⟨input, room, directive, result⟩)
    (hoffers : Offers source calls ⟨input, room, directive, result⟩) :
    Quieted start source (calls ++ [⟨input, room, directive, result⟩]) codec' := by
  have hcalls : withoutFlushes (calls ++ [⟨input, room, directive, result⟩])
      = withoutFlushes calls ++ [⟨input, room, directive, result⟩] :=
    withoutFlushes_snoc hdirective
  obtain ⟨hroom, hasked⟩ := hprotocol
  have hprotocol' : Protocol (withoutFlushes calls) ⟨input, room, directive, result⟩ := by
    refine ⟨hroom, ?_⟩
    cases directive with
    | feed => exact hasked.withoutFlushes
    | flush => exact absurd rfl hdirective
    | finish => exact ⟨hasked.1, hasked.2.withoutFlushes⟩
  have hoffers' : Offers source (withoutFlushes calls) ⟨input, room, directive, result⟩ := by
    rw [Offers, h.taken]
    exact hoffers
  refine ⟨?_, ?_, ?_, ?_⟩
  · rw [hcalls]
    exact h.encoding.snoc hstep hprotocol' hoffers'
  · rw [hcalls, takenBy_append, takenBy_append, h.taken]
  · rw [hcalls, givenBy_append, givenBy_append, h.given]
  · exact List.forall_mem_append.mpr
      ⟨h.flushes, List.forall_mem_singleton.mpr fun hflush => absurd hflush hdirective⟩

/-- **The calls of a quiet codec**, but for its flushes, are calls of the codec. -/
theorem Encoding.quieted (h : @Encoding κ inner.quiet start source calls codec) :
    Quieted start source calls codec := by
  obtain ⟨hsteps, hprotocol, hoffers⟩ := h
  induction hsteps with
  | nil =>
      exact ⟨⟨.nil, each_nil, each_nil⟩, rfl, rfl, fun _ hc => absurd hc List.not_mem_nil⟩
  | @snoc calls codec codec' input room directive result _ hstep ih =>
      obtain ⟨hcalls, hcall⟩ := each_snoc.mp hprotocol
      obtain ⟨hoffered, hoffer⟩ := each_snoc.mp hoffers
      have h := ih hcalls hoffered
      cases directive with
      | feed => exact h.called (by decide) hstep hcall hoffer
      | flush =>
          obtain ⟨rfl, rfl⟩ := Prod.mk.inj hstep
          exact h.flushed rfl rfl
      | finish => exact h.called (by decide) hstep hcall hoffer

end Quieted

/-! ## Codecs that fix a frame -/

/-- Fed a source and asked to close the frame, but not to flush, a codec puts the source into one
frame, however it is fed. -/
structure Fixes {κ : Type} [Codec κ] (start : κ) (source frame : List UInt8) (bound : Nat) :
    Prop where
  /-- No call fails. -/
  succeeds : ∀ {calls : List StepCall} {codec : κ}, Encoding start source calls codec →
    Unflushed calls → ∀ c ∈ calls, c.succeeded = true
  /-- There is an end to what the calls put out. -/
  bounded : ∀ {calls : List StepCall} {codec : κ}, Encoding start source calls codec →
    Unflushed calls → (givenBy calls).length ≤ bound
  /-- When they have closed the frame, it is this one. -/
  fixed : ∀ {calls : List StepCall} {codec : κ}, Encoding start source calls codec →
    Unflushed calls → Closed calls → givenBy calls = frame
  /-- A call that feeds some input and leaves room uses something. -/
  progress : ∀ {calls : List StepCall} {codec : κ}, Encoding start source calls codec →
    Unflushed calls → ∀ c ∈ calls, c.directive = .feed → c.input.size ≠ 0 → c.LeavesRoom →
      c.taken ≠ []
  /-- A call that does not close the frame when it is asked to leaves no room. -/
  fills : ∀ {calls : List StepCall} {codec : κ}, Encoding start source calls codec →
    Unflushed calls → ∀ c ∈ calls, c.directive = .finish → c.isDone = false → ¬c.LeavesRoom

section Fixes

variable {κ : Type} [inner : Codec κ] {start codec : κ} {source frame : List UInt8} {bound : Nat}
  {calls : List StepCall}

/-- **A codec that fixes a frame encodes its source when it is quiet.** -/
theorem Fixes.encodes (h : Fixes start source frame bound) :
    @Encodes κ inner.quiet start source fun _ => bound := by
  refine @Encodes.mk κ inner.quiet _ _ _ ?_ ?_ ?_ ?_
  · intro calls codec he c hc
    by_cases hflush : c.directive = .flush
    · unfold StepCall.succeeded
      rw [he.quieted.flushes c hc hflush]
    · exact h.succeeds he.quieted.encoding (unflushed_withoutFlushes calls) c
        (mem_withoutFlushes.mpr ⟨hc, hflush⟩)
  · intro calls codec he
    rw [← he.quieted.given]
    exact h.bounded he.quieted.encoding (unflushed_withoutFlushes calls)
  · intro calls codec he c hc hfeed
    refine h.progress he.quieted.encoding (unflushed_withoutFlushes calls) c
      (mem_withoutFlushes.mpr ⟨hc, ?_⟩) hfeed
    rw [hfeed]
    decide
  · intro calls codec he c hc hdirective hgiven
    cases hd : c.directive with
    | feed => exact absurd hd hdirective
    | flush =>
        unfold StepCall.isDone
        rw [he.quieted.flushes c hc hd]
        rfl
    | finish =>
        -- a call that puts nothing out leaves its room, so it has closed the frame
        have hmem : c ∈ withoutFlushes calls := by
          refine mem_withoutFlushes.mpr ⟨hc, ?_⟩
          rw [hd]
          decide
        have he' := he.quieted.encoding
        obtain ⟨before, hroom, -⟩ := he'.protocol.forall_mem hmem
        have hleaves : c.LeavesRoom := by
          rw [StepCall.LeavesRoom, hgiven]
          exact hroom
        cases hdone : c.isDone with
        | true => rfl
        | false =>
            exact absurd hleaves (h.fills he' (unflushed_withoutFlushes calls) c hmem hd hdone)

/-- A quiet codec that has closed the frame has put out the one that is fixed. -/
theorem Fixes.frame_eq (h : Fixes start source frame bound)
    (he : @Encoding κ inner.quiet start source calls codec) (hclosed : Closed calls) :
    givenBy calls = frame := by
  rw [← he.quieted.given]
  exact h.fixed he.quieted.encoding (unflushed_withoutFlushes calls) hclosed.withoutFlushes

end Fixes

/-! ## Passages -/

/-- The request is to write. -/
def Request.isWrite : Request → Bool
  | .write _ => true
  | .flush => false

/-- Where no flush is requested, it does not matter what a flush does. -/
theorem serveEach_of_writes {ω : Type}
    (write : (turns : Nat) → ω → Slice → Except (Halt IoError) Nat × ω)
    (flush flush' : (turns : Nat) → ω → Except (Halt IoError) Unit × ω) (turns : Nat) :
    ∀ {requests : List Request} (w : ω), (∀ r ∈ requests, r.isWrite = true) →
      serveEach write flush turns w requests = serveEach write flush' turns w requests := by
  intro requests
  induction requests with
  | nil => intro w _; rfl
  | cons request rest ih =>
      intro w h
      obtain ⟨hwrite, hrest⟩ := List.forall_mem_cons.mp h
      cases request with
      | flush => cases hwrite
      | write part =>
          simp only [serveEach]
          cases writeThrough write turns w part with
          | mk result w' =>
              cases result with
              | ok => exact ih w' hrest
              | error x => rfl

namespace Passage

/-- A passage in which no flush is requested. -/
def Unflushed : Passage → Prop
  | @writer _ _ _ requests => ∀ r ∈ requests, r.isWrite = true
  | _ => True

theorem compress_quiet [inner : Codec κ] (p : Passage) (hp : p.Unflushed) (memory : Memory)
    (make : CompressorOptions → Except Error κ) (o : CompressorOptions) (log : Log) :
    @compress κ inner.quiet p memory make o log = p.compress memory make o log := by
  funext turns
  cases p with
  | oneShot data => simp only [compress, OneShot.compress_quiet]
  | stream r w => simp only [compress, Stream.compress_quiet]
  | reader r rooms => simp only [compress, CompressingReader.read_quiet]
  | writer w requests =>
      simp only [compress, CompressingWriter.write_quiet, CompressingWriter.finish_quiet]
      cases CompressingWriter.create memory make o (Observed.new w) log with
      | mk result log' =>
          cases result with
          | error e => rfl
          | ok c =>
              have hserve := serveEach_of_writes (fun turns c s => c.write turns s)
                (fun turns c => CompressingWriter.flush turns c)
                (fun turns c => @CompressingWriter.flush κ _ inner.quiet _ turns c) turns c hp
              dsimp only
              rw [hserve]

end Passage

end Zstandard
