import Zstandard.Proofs.Session

/-!
# The protocol of compression

A codec that writes a frame is fed content and asked to flush, and then asked to close the frame
until it reports that this is done. `Protocol` holds each call against those before it, so it says
what may be asked of a codec in whatever way a driver comes to its call. `Orderly` is the shape that
calls have if each of them keeps to the protocol: some that open the frame, some that close it, and
none after the one that has closed it.

A session keeps to the protocol by its phase: `Session.Open` and `Session.Shut` say what is known of
the calls in each of the two.
-/

namespace Zstandard

/-- No call asks for the frame to be closed. -/
def Unfinished (calls : List StepCall) : Prop := ∀ c ∈ calls, c.directive ≠ .finish

/-- No call has closed the frame. -/
def Unclosed (calls : List StepCall) : Prop :=
  ∀ c ∈ calls, c.directive = .finish → c.isDone = false

/-- No call asks for a flush. -/
def Unflushed (calls : List StepCall) : Prop := ∀ c ∈ calls, c.directive ≠ .flush

/-- The calls ask for the frame to be closed, without input, and for nothing else. -/
def OnlyCloses (calls : List StepCall) : Prop :=
  ∀ c ∈ calls, c.directive = .finish ∧ c.input.size = 0

/-- What may be asked of a codec after the calls `before`. -/
def Protocol (before : List StepCall) (call : StepCall) : Prop :=
  0 < call.room ∧
    match call.directive with
    | .feed => Unfinished before
    | .flush => call.input.size = 0 ∧ Unfinished before
    | .finish => call.input.size = 0 ∧ Unclosed before

/-- What a call is offered of a source: what comes next in it, or nothing when all of it has been
used. -/
def Offers (source : List UInt8) (before : List StepCall) (call : StepCall) : Prop :=
  (call.directive = .feed → takenBy before ++ call.input.toList <+: source)
    ∧ (call.directive = .finish → takenBy before = source)

/-- Calls that open a frame, and calls that close it. -/
structure Orderly (opening closing : List StepCall) : Prop where
  /-- First the codec is fed and flushed; a flush has no input. -/
  opens : ∀ c ∈ opening, c.directive = .feed ∨ (c.directive = .flush ∧ c.input.size = 0)
  /-- Then the frame is closed, without input. -/
  closes : OnlyCloses closing
  /-- Nothing is asked after the frame has been closed. -/
  pending : ∀ c ∈ closing.dropLast, c.isDone = false
  /-- Each call has room. -/
  room : ∀ c ∈ opening ++ closing, 0 < c.room

theorem Unfinished.snoc {calls : List StepCall} {call : StepCall} (h : Unfinished calls)
    (hcall : call.directive ≠ .finish) : Unfinished (calls ++ [call]) :=
  List.forall_mem_append.mpr ⟨h, List.forall_mem_singleton.mpr hcall⟩

theorem Unfinished.unclosed {calls : List StepCall} (h : Unfinished calls) : Unclosed calls :=
  fun c hc hfinish => absurd hfinish (h c hc)

theorem Unclosed.snoc {calls : List StepCall} {call : StepCall} (h : Unclosed calls)
    (hcall : call.directive = .finish → call.isDone = false) : Unclosed (calls ++ [call]) :=
  List.forall_mem_append.mpr ⟨h, List.forall_mem_singleton.mpr hcall⟩

theorem OnlyCloses.cons {calls : List StepCall} {room : Nat} {result : Except Error Step}
    (h : OnlyCloses calls) : OnlyCloses (⟨.empty, room, .finish, result⟩ :: calls) :=
  List.forall_mem_cons.mpr ⟨⟨rfl, rfl⟩, h⟩

/-- Calls that only close a frame use nothing. -/
theorem OnlyCloses.taken {closing : List StepCall} (h : OnlyCloses closing) :
    takenBy closing = [] :=
  List.flatMap_eq_nil_iff.mpr fun c hc => StepCall.taken_of_size (h c hc).2

theorem OnlyCloses.unflushed {calls closing : List StepCall} (h : OnlyCloses closing)
    (hcalls : Unflushed calls) : Unflushed (calls ++ closing) := by
  refine List.forall_mem_append.mpr ⟨hcalls, fun c hc => ?_⟩
  rw [(h c hc).1]
  decide

theorem Unflushed.snoc {calls : List StepCall} {call : StepCall} (h : Unflushed calls)
    (hcall : call.directive ≠ .flush) : Unflushed (calls ++ [call]) :=
  List.forall_mem_append.mpr ⟨h, List.forall_mem_singleton.mpr hcall⟩

theorem onlyCloses_nil : OnlyCloses [] := fun _ hc => absurd hc List.not_mem_nil

theorem unfinished_nil : Unfinished [] := fun _ hc => absurd hc List.not_mem_nil

section Offers

variable {source : List UInt8} {calls : List StepCall} {input : Slice} {room : Nat}
  {result : Except Error Step}

theorem offers_feed (h : takenBy calls ++ input.toList <+: source) :
    Offers source calls ⟨input, room, .feed, result⟩ :=
  ⟨fun _ => h, fun hd => by cases hd⟩

theorem offers_flush : Offers source calls ⟨input, room, .flush, result⟩ :=
  ⟨(fun hd => by cases hd), fun hd => by cases hd⟩

theorem offers_finish (h : takenBy calls = source) :
    Offers source calls ⟨input, room, .finish, result⟩ :=
  ⟨(fun hd => by cases hd), fun _ => h⟩

/-- What was offered of a source was offered of any that begins with it. -/
theorem offers_mono {source' : List UInt8} (h : Each (Offers source) calls)
    (hunfinished : Unfinished calls) (hs : source <+: source') : Each (Offers source') calls := by
  refine h.mono fun before call after hl hoffers =>
    ⟨fun hd => (hoffers.1 hd).trans hs, fun hd => ?_⟩
  exact absurd hd (hunfinished call (by rw [hl]; simp))

/-- Calls that feed a source are offered that source. -/
theorem offers_of_feeds (h : Each (Feeds source) calls) : Each (Offers source) calls :=
  h.mono fun _ _ _ _ hfeeds =>
    ⟨fun _ => hfeeds.2.2, fun hd => by rw [hfeeds.1] at hd; cases hd⟩

/-- Calls that only close the frame may follow when all of the source has been used. -/
theorem OnlyCloses.offers {closing : List StepCall} (h : OnlyCloses closing)
    (hcalls : Each (Offers source) calls) (htaken : takenBy calls = source) :
    Each (Offers source) (calls ++ closing) := by
  induction closing generalizing calls with
  | nil => rwa [List.append_nil]
  | cons call closing ih =>
      obtain ⟨⟨hfinish, hsize⟩, hrest⟩ := List.forall_mem_cons.mp h
      -- a call that closes uses nothing, so all has still been used before the next
      rw [← List.singleton_append, ← List.append_assoc]
      refine ih hrest (each_snoc.mpr ⟨hcalls, ?_, fun _ => htaken⟩)
        ((takenBy_snoc_of_size hsize).trans htaken)
      intro hd
      rw [hfinish] at hd
      cases hd

end Offers

/-- Calls that feed a source keep to the protocol, and leave the frame open. -/
theorem protocol_of_feeds {source : List UInt8} {calls : List StepCall}
    (h : Each (Feeds source) calls) :
    Each Protocol calls ∧ Unfinished calls ∧ Unflushed calls := by
  have hfeed : ∀ c ∈ calls, c.directive = .feed := by
    intro c hc
    obtain ⟨before, hfeeds⟩ := h.forall_mem hc
    exact hfeeds.1
  have hunfinished : Unfinished calls := by
    intro c hc
    rw [hfeed c hc]
    decide
  have hunflushed : Unflushed calls := by
    intro c hc
    rw [hfeed c hc]
    decide
  refine ⟨h.mono fun before call after hl hfeeds => ?_, hunfinished, hunflushed⟩
  refine ⟨hfeeds.2.1, ?_⟩
  rw [hfeeds.1]
  intro c hc
  exact hunfinished c (by rw [hl]; exact List.mem_append_left _ hc)

section Shape

variable {κ : Type} [Codec κ] {start codec : κ} {calls : List StepCall}

/-- **Calls that keep to the protocol are orderly**, and none of them closes the frame as long as
that was not asked for. -/
theorem Steps.orderly (h : Steps start calls codec) (hprotocol : Each Protocol calls) :
    ∃ opening closing, calls = opening ++ closing ∧ Orderly opening closing
      ∧ (Unfinished calls → closing = []) := by
  -- on the calls: one that feeds or flushes comes while none closes, and goes to the opening ones
  induction h with
  | nil => exact ⟨[], [], rfl, ⟨by simp, onlyCloses_nil, by simp, by simp⟩, fun _ => rfl⟩
  | @snoc calls codec codec' input room directive result _ _ ih =>
      obtain ⟨hcalls, hroom, hlast⟩ := each_snoc.mp hprotocol
      obtain ⟨opening, closing, rfl, horderly, hnil⟩ := ih hcalls
      have hrooms : ∀ c ∈ opening ++ closing ++ [⟨input, room, directive, result⟩],
          0 < c.room :=
        List.forall_mem_append.mpr ⟨horderly.room, List.forall_mem_singleton.mpr hroom⟩
      -- a call that opens the frame finds no call that closes it
      have hopen : Unfinished (opening ++ closing) →
          (directive = .feed ∨ (directive = .flush ∧ input.size = 0)) →
          ∃ opening' closing', opening ++ closing ++ [⟨input, room, directive, result⟩]
            = opening' ++ closing' ∧ Orderly opening' closing' ∧
            (Unfinished (opening ++ closing ++ [⟨input, room, directive, result⟩]) →
              closing' = []) := by
        intro hunfinished hdirective
        obtain rfl := hnil hunfinished
        rw [List.append_nil] at hrooms ⊢
        refine ⟨opening ++ [⟨input, room, directive, result⟩], [], (List.append_nil _).symm,
          ⟨?_, onlyCloses_nil, by simp, by rw [List.append_nil]; exact hrooms⟩, fun _ => rfl⟩
        exact List.forall_mem_append.mpr
          ⟨horderly.opens, List.forall_mem_singleton.mpr hdirective⟩
      cases directive with
      | feed => exact hopen hlast (Or.inl rfl)
      | flush => exact hopen hlast.2 (Or.inr ⟨rfl, hlast.1⟩)
      | finish =>
          refine ⟨opening, closing ++ [⟨input, room, .finish, result⟩], List.append_assoc _ _ _,
            ⟨horderly.opens, ?_, ?_, by rw [← List.append_assoc]; exact hrooms⟩, ?_⟩
          · exact List.forall_mem_append.mpr
              ⟨horderly.closes, List.forall_mem_singleton.mpr ⟨rfl, hlast.1⟩⟩
          · -- the calls before this one have not closed the frame, or it could not be made
            intro c hc
            rw [List.dropLast_concat] at hc
            exact hlast.2 c (List.mem_append_right _ hc) (horderly.closes c hc).1
          · intro hunfinished
            have hmem := List.mem_append_right (opening ++ closing)
              (List.mem_singleton_self (StepCall.mk input room .finish result))
            exact absurd rfl (hunfinished _ hmem)

end Shape

/-- Calls that put all of a source into one frame, the last of which has closed it. -/
structure Encoded (opening closing : List StepCall) (last : StepCall)
    (source delivered : List UInt8) : Prop where
  /-- They keep to the protocol. -/
  orderly : Orderly opening (closing ++ [last])
  /-- They use every byte of the source once, in order, before the frame is closed. -/
  taken : takenBy opening = source
  /-- The last one has closed the frame. -/
  done : last.isDone = true
  /-- What they put out is what is delivered. -/
  given : delivered = givenBy (opening ++ closing ++ [last])

/-- The last of some calls has closed the frame. -/
def Closed (calls : List StepCall) : Prop :=
  ∃ before last, calls = before ++ [last] ∧ last.directive = .finish ∧ last.isDone = true

/-- **Calls of which the last has closed the frame** have put into it all that they used. -/
theorem Steps.encoded {κ : Type} [Codec κ] {start codec : κ} {calls : List StepCall}
    (h : Steps start calls codec) (hprotocol : Each Protocol calls) (hclosed : Closed calls) :
    ∃ opening closing last, calls = opening ++ closing ++ [last]
      ∧ Encoded opening closing last (takenBy calls) (givenBy calls) := by
  obtain ⟨before, last, rfl, hfinish, hdone⟩ := hclosed
  obtain ⟨opening, closing, heq, horderly, -⟩ := h.orderly hprotocol
  rcases List.eq_nil_or_concat closing with rfl | ⟨closing, c, rfl⟩
  · -- the last call asks to close the frame, so it is not an opening one
    rw [List.append_nil] at heq
    rcases horderly.opens last (heq ▸ List.mem_append_right _ (List.mem_singleton.mpr rfl)) with
      hfeed | ⟨hflush, -⟩
    · rw [hfeed] at hfinish
      cases hfinish
    · rw [hflush] at hfinish
      cases hfinish
  · rw [List.concat_eq_append] at heq horderly
    rw [← List.append_assoc] at heq
    obtain ⟨-, hc⟩ := List.append_inj' heq rfl
    obtain rfl := List.singleton_inj.mp hc
    refine ⟨opening, closing, last, heq, horderly, ?_, hdone, by rw [heq]⟩
    rw [heq, List.append_assoc, takenBy_append, horderly.closes.taken, List.append_nil]

/-! ## Sessions that compress -/

namespace Session

variable {κ : Type} [Codec κ]

/-- What is known of an active session whose codec has made some calls. -/
structure Open (start : κ) (calls : List StepCall) (s : Session κ) : Prop where
  /-- The calls lead to the codec. -/
  steps : Steps start calls s.codec
  /-- They keep to the protocol. -/
  protocol : Each Protocol calls
  /-- They have not closed the frame. -/
  unclosed : Unclosed calls
  /-- The destination keeps to its bounds. -/
  fits : s.destination.Fits
  /-- The destination has a capacity. -/
  capacity : 0 < s.destination.capacity
  /-- The session is active. -/
  active : s.phase = .active

/-- What is known of a finished session whose codec has made some calls. -/
structure Shut (start : κ) (calls : List StepCall) (s : Session κ) : Prop where
  /-- The calls lead to the codec. -/
  steps : Steps start calls s.codec
  /-- They keep to the protocol. -/
  protocol : Each Protocol calls
  /-- The last of them has closed the frame. -/
  closed : Closed calls
  /-- The session is finished. -/
  finished : s.phase = .finished

variable {start codec : κ} {calls : List StepCall} {s : Session κ} {input : Slice} {room : Nat}

/-- A destination that was drained has room. -/
theorem Open.drained (h : Open start calls s) :
    Open start calls { s with destination := s.destination.rewind }
      ∧ s.destination.rewind.isFull = false :=
  ⟨⟨h.steps, h.protocol, h.unclosed, DestinationBuffer.fits_rewind _, h.capacity, h.active⟩,
    beq_eq_false_iff_ne.mpr (Nat.ne_of_lt h.capacity)⟩

theorem Shut.drained (h : Shut start calls s) :
    Shut start calls { s with destination := s.destination.rewind } :=
  ⟨h.steps, h.protocol, h.closed, h.finished⟩

/-- Neither of the two is closed. -/
theorem Open.ne_closed (h : Open start calls s) : s.phase ≠ .closed := by
  rw [h.active]
  decide

theorem Shut.ne_closed (h : Shut start calls s) : s.phase ≠ .closed := by
  rw [h.finished]
  decide

/-- A step that fails changes the codec only. -/
theorem Open.failed {directive : Directive} {e : Error} (h : Open start calls s)
    (hstep : Codec.step s.codec input s.destination.free directive = (.error e, codec))
    (hcall : Protocol calls ⟨input, s.destination.free, directive, .error e⟩) :
    Open start (calls ++ [⟨input, s.destination.free, directive, .error e⟩])
      ⟨codec, s.destination, .active⟩ :=
  ⟨h.steps.snoc hstep, each_snoc.mpr ⟨h.protocol, hcall⟩, h.unclosed.snoc fun _ => rfl, h.fits,
    h.capacity, rfl⟩

/-- A step that succeeds and does not close the frame adds to the destination. -/
theorem Open.stepped {directive : Directive} {step : Step} (h : Open start calls s)
    (hstep : Codec.step s.codec input s.destination.free directive = (.ok step, codec))
    (hcall : Protocol calls ⟨input, s.destination.free, directive, .ok step⟩)
    (hdone : directive = .finish → step.completion = .pending) :
    Open start (calls ++ [⟨input, s.destination.free, directive, .ok step⟩])
      ⟨codec, s.destination.append step.produced, .active⟩ :=
  ⟨h.steps.snoc hstep, each_snoc.mpr ⟨h.protocol, hcall⟩,
    h.unclosed.snoc fun hfinish => StepCall.isDone_of_pending (hdone hfinish),
    h.fits.append (Codec.produced_le hstep), h.capacity, rfl⟩

/-- A step that closes the frame finishes the session. -/
theorem Open.shut {step : Step} (h : Open start calls s)
    (hstep : Codec.step s.codec input s.destination.free .finish = (.ok step, codec))
    (hcall : Protocol calls ⟨input, s.destination.free, .finish, .ok step⟩)
    (hdone : step.completion = .done) :
    Shut start (calls ++ [⟨input, s.destination.free, .finish, .ok step⟩])
      ⟨codec, s.destination.append step.produced, .finished⟩ :=
  ⟨h.steps.snoc hstep, each_snoc.mpr ⟨h.protocol, hcall⟩,
    ⟨calls, _, rfl, rfl, StepCall.isDone_of_done hdone⟩, rfl⟩

/-- What an open session may ask of its codec. -/
theorem Open.may_feed (h : Open start calls s) (hunfinished : Unfinished calls)
    (hroom : s.destination.isFull = false) (input : Slice) (result : Except Error Step) :
    Protocol calls ⟨input, s.destination.free, .feed, result⟩ :=
  ⟨h.fits.free_pos_iff.mpr hroom, hunfinished⟩

theorem Open.may_flush (h : Open start calls s) (hunfinished : Unfinished calls)
    (hroom : s.destination.isFull = false) (result : Except Error Step) :
    Protocol calls ⟨.empty, s.destination.free, .flush, result⟩ :=
  ⟨h.fits.free_pos_iff.mpr hroom, rfl, hunfinished⟩

theorem Open.may_finish (h : Open start calls s) (hroom : s.destination.isFull = false)
    (result : Except Error Step) :
    Protocol calls ⟨.empty, s.destination.free, .finish, result⟩ :=
  ⟨h.fits.free_pos_iff.mpr hroom, rfl, h.unclosed⟩

/-- A new session that compresses is open. -/
theorem open_new (codec : κ) {destinationLength : Nat} (hroom : 0 < destinationLength) :
    Open codec [] ⟨codec, ⟨.empty, destinationLength⟩, .active⟩ :=
  ⟨.nil, each_nil, unfinished_nil.unclosed, Nat.zero_le _, hroom, rfl⟩

end Session

end Zstandard
