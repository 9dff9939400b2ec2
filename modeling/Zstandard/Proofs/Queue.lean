import Zstandard.Proofs.Compression
import Zstandard.Proofs.Decompression

/-!
# A session is a tagged queue of bytes

A session driven by hand is a queue: what its codec puts out goes in, what is drained comes out, in
order, and no more is held than there is room for. Its tag is the phase: active until a finish has
told that nothing more is to come, then finished until the session is closed, and then closed for
ever. Whatever a session is asked for and in whichever order, it keeps to that, also when steps of
its codec fail. The headline is `sessions_are_tagged_queues`.
-/

namespace Zstandard

namespace Session

/-- What a session may be asked for. -/
inductive Operation where
  | push (input : Slice)
  | flush
  | finish
  | drain
  | endOfInput
  | close

/-- What a session answers. -/
inductive Answer where
  | pushed (p : Pushed)
  /-- Whether more is to come. -/
  | more (more : Bool)
  | drained (bytes : ByteArray)
  /-- There is nothing to tell. -/
  | nothing

/-- An operation, and what came of it. -/
abbrev Exchange := Operation × Except Error Answer

section Operations

variable {κ : Type} [Codec κ]

/-- One operation. -/
def perform (operation : Operation) (s : Session κ) : Except Error Answer × Session κ :=
  match operation with
  | .push input => ((s.push input).1.map .pushed, (s.push input).2)
  | .flush => (s.flush.1.map .more, s.flush.2)
  | .finish => (s.finish.1.map .more, s.finish.2)
  | .drain => (s.drain.1.map .drained, s.drain.2)
  | .endOfInput => (s.endOfInput.map fun _ => .nothing, s)
  | .close => (.ok .nothing, s.close)

/-- Operations one after another, whatever comes of them. -/
def performAll : List Operation → Session κ → List Exchange × Session κ
  | [], s => ([], s)
  | operation :: rest, s =>
    match s.perform operation with
    | (answer, s) =>
      match performAll rest s with
      | (exchanges, s) => ((operation, answer) :: exchanges, s)

end Operations

/-- The bytes that an operation has drained. -/
def Exchange.drained : Exchange → List UInt8
  | (_, .ok (.drained bytes)) => bytes.data.toList
  | _ => []

/-- The bytes drained by some operations. -/
def drainedBy (exchanges : List Exchange) : List UInt8 := exchanges.flatMap Exchange.drained

end Session

/-- The tag behind an operation. -/
def Phase.after : Phase → Session.Exchange → Phase
  | _, (.close, _) => .closed
  | .active, (.finish, .ok (.more false)) => .finished
  | phase, _ => phase

namespace Session

/-- The tag behind some operations on a new session. -/
def phaseAfter (exchanges : List Exchange) : Phase := exchanges.foldl Phase.after .active

/-- The step that an operation asks the codec for, if it asks for one. -/
def Operation.asks : Operation → Option (Slice × Directive)
  | .push input => some (input, .feed)
  | .flush => some (.empty, .flush)
  | .finish => some (.empty, .finish)
  | _ => none

/-- A session that is a tagged queue of at most `capacity` bytes, whatever operations it has behind
it. The `record` is that of the calls of its codec. -/
structure TaggedQueue {κ : Type} [Codec κ] (record : κ → List StepCall) (capacity : Nat)
    (first : Session κ) : Prop where
  /-- Until the session is closed, what was drained and what is held is what was put out. -/
  bytes : ∀ {operations exchanges s}, first.performAll operations = (exchanges, s) →
    s.phase ≠ .closed →
    drainedBy exchanges ++ s.destination.bytes.data.toList = givenBy (record s.codec)
  /-- No more is held than there is room for. -/
  size_le : ∀ {operations exchanges s}, first.performAll operations = (exchanges, s) →
    s.destination.bytes.size ≤ capacity
  /-- The tag goes from active to finished, and from both to closed. -/
  phase : ∀ {operations exchanges s}, first.performAll operations = (exchanges, s) →
    s.phase = phaseAfter exchanges
  /-- A push that succeeds makes one call. It tells how much that used, and whether the destination
  is full behind it. -/
  pushed : ∀ {operations exchanges s input p s'}, first.performAll operations = (exchanges, s) →
    s.push input = (.ok p, s') →
    (p.full = true ↔ s'.destination.bytes.size = capacity)
      ∧ ∃ step, record s'.codec
          = record s.codec ++ [⟨input, s.destination.free, .feed, .ok step⟩]
        ∧ p.consumed = step.consumed
  /-- An operation that fails changes neither the tag nor what is held. -/
  failed : ∀ {operations exchanges s operation e s'}, first.performAll operations = (exchanges, s) →
    s.perform operation = (.error e, s') →
    s'.phase = s.phase ∧ s'.destination = s.destination
  /-- A finished session calls its codec no more and can only be drained. -/
  finished : ∀ {operations exchanges s}, first.performAll operations = (exchanges, s) →
    s.phase = .finished →
    (∀ operation, operation.asks ≠ none → s.perform operation = (.error .usedAfterClose, s))
      ∧ s.drain = (.ok s.destination.bytes, { s with destination := s.destination.rewind })
  /-- A closed session refuses everything but to be closed again. -/
  closed : ∀ {operations exchanges s}, first.performAll operations = (exchanges, s) →
    s.phase = .closed →
    (∀ operation, operation ≠ .close → s.perform operation = (.error .usedAfterClose, s))
      ∧ s.close = s

/-! ## One operation -/

section Operation

variable {κ : Type} [Codec κ] {record : κ → List StepCall} {s s' : Session κ} {input : Slice}
  {directive : Directive} {operation : Operation} {exchanges : List Exchange}

/-- Each step of the codec is put on record. -/
def Records (record : κ → List StepCall) : Prop :=
  ∀ {codec codec' : κ} {input : Slice} {room : Nat} {directive : Directive}
    {result : Except Error Step}, Codec.step codec input room directive = (result, codec') →
    record codec' = record codec ++ [⟨input, room, directive, result⟩]

/-- What a destination holds behind a step into it. -/
def holding (destination : DestinationBuffer) : Except Error Step → DestinationBuffer
  | .ok step => destination.append step.produced
  | .error _ => destination

/-- A step is refused, or is one of the codec. -/
theorem step_cases (s : Session κ) (input : Slice) (directive : Directive) :
    (s.phase ≠ .active ∧ s.step input directive = (.error .usedAfterClose, s))
      ∨ ∃ result codec', s.phase = .active
        ∧ Codec.step s.codec input s.destination.free directive = (result, codec')
        ∧ s.step input directive = (result, ⟨codec', holding s.destination result, .active⟩) := by
  obtain ⟨codec, destination, phase⟩ := s
  cases phase with
  | active =>
      obtain ⟨result, codec', hcodec⟩ : ∃ result codec',
          Codec.step codec input destination.free directive = (result, codec') := ⟨_, _, rfl⟩
      refine Or.inr ⟨result, codec', rfl, hcodec, ?_⟩
      cases result with
      | ok done => simp only [step, hcodec, holding]
      | error e => simp only [step, hcodec, holding]
  | finished => exact Or.inl ⟨by simp, rfl⟩
  | closed => exact Or.inl ⟨by simp, rfl⟩

/-- What an operation answers when the step it asks for succeeds. -/
def Operation.answer (operation : Operation) (destination : DestinationBuffer) (step : Step) :
    Answer :=
  match operation with
  | .push _ => .pushed ⟨step.consumed, destination.isFull⟩
  | _ => .more (step.completion == .pending)

/-- An operation that asks for a step is that step, and moves the tag. -/
theorem perform_of_step {result : Except Error Step} {codec : κ} {destination : DestinationBuffer}
    (h : operation.asks = some (input, directive))
    (hstep : s.step input directive = (result, ⟨codec, destination, .active⟩)) :
    s.perform operation = (result.map (operation.answer destination),
      ⟨codec, destination,
        Phase.active.after (operation, result.map (operation.answer destination))⟩) := by
  cases operation with
  | push i =>
      cases h
      cases result <;> simp only [perform, push, hstep] <;> rfl
  | flush =>
      cases h
      cases result <;> simp only [perform, flush, hstep] <;> rfl
  | finish =>
      cases h
      cases result with
      | ok step =>
          cases hcompletion : step.completion <;>
            (simp only [perform, finish, hstep, hcompletion, Operation.answer, Except.map]; rfl)
      | error e => simp only [perform, finish, hstep]; rfl
  | drain => cases h
  | endOfInput => cases h
  | close => cases h

theorem perform_of_refused {e : Error} (h : operation.asks = some (input, directive))
    (hstep : s.step input directive = (.error e, s)) : s.perform operation = (.error e, s) := by
  cases operation with
  | push i => cases h; simp only [perform, push, hstep]; rfl
  | flush => cases h; simp only [perform, flush, hstep]; rfl
  | finish => cases h; simp only [perform, finish, hstep]; rfl
  | drain => cases h
  | endOfInput => cases h
  | close => cases h

/-- A session that is not active refuses to step. -/
theorem perform_of_ne_active (h : s.phase ≠ .active) (hasks : operation.asks ≠ none) :
    s.perform operation = (.error .usedAfterClose, s) := by
  obtain ⟨⟨input, directive⟩, hasks⟩ := Option.ne_none_iff_exists'.mp hasks
  rcases s.step_cases input directive with ⟨-, hstep⟩ | ⟨_, _, hactive, -⟩
  · exact perform_of_refused hasks hstep
  · exact absurd hactive h

/-! ## Queues -/

/-- What has been drained, and what is held, is what was put out. -/
structure Queued (record : κ → List StepCall) (capacity : Nat) (drained : List UInt8)
    (s : Session κ) : Prop where
  bytes : drained ++ s.destination.bytes.data.toList = givenBy (record s.codec)
  fits : s.destination.Fits
  capacity : s.destination.capacity = capacity

variable {capacity : Nat} {drained : List UInt8}

omit [Codec κ] in
theorem Queued.with_phase (h : Queued record capacity drained s) (phase : Phase) :
    Queued record capacity drained { s with phase } := ⟨h.bytes, h.fits, h.capacity⟩

/-- A step puts what it produces behind what is held, and nothing if it fails. -/
theorem Queued.step {result : Except Error Step} {codec : κ} (hrecord : Records record)
    (h : Queued record capacity drained s)
    (hstep : Codec.step s.codec input s.destination.free directive = (result, codec))
    (phase : Phase) :
    Queued record capacity drained ⟨codec, holding s.destination result, phase⟩ := by
  have hcall := hrecord hstep
  cases result with
  | ok done =>
      refine ⟨?_, h.fits.append (Codec.produced_le hstep), ?_⟩
      · dsimp only [holding]
        rw [hcall, givenBy_snoc_ok, ← h.bytes, DestinationBuffer.toList_append, List.append_assoc]
      · dsimp only [holding]
        rw [DestinationBuffer.capacity_append, h.capacity]
  | error e =>
      refine ⟨?_, h.fits, h.capacity⟩
      dsimp only [holding]
      rw [hcall, givenBy_append, h.bytes]
      simp [StepCall.given]

/-- An operation that fails leaves the tag where it is. -/
theorem after_error (hoperation : operation ≠ .close) (phase : Phase) (e : Error) :
    phase.after (operation, .error e) = phase := by
  cases operation with
  | close => exact absurd rfl hoperation
  | _ => cases phase <;> rfl

omit [Codec κ] in
theorem drained_of_asks {result : Except Error Step} {destination : DestinationBuffer} :
    Exchange.drained (operation, result.map (operation.answer destination)) = [] := by
  cases result with
  | ok done => cases operation <;> rfl
  | error e => rfl

omit [Codec κ] in
/-- What fails without a step leaves the session as it is. -/
theorem Queued.refused (h : Queued record capacity drained s) (hoperation : operation ≠ .close)
    (e : Error) :
    Queued record capacity (drained ++ Exchange.drained (operation, .error e)) s
      ∧ s.phase = s.phase.after (operation, .error e)
      ∧ ∀ e', (.error e : Except Error Answer) = .error e' →
        s.phase = s.phase ∧ s.destination = s.destination := by
  rw [after_error hoperation, show Exchange.drained (operation, .error e) = [] from rfl,
    List.append_nil]
  exact ⟨h, rfl, fun _ _ => ⟨rfl, rfl⟩⟩

/-- **One operation** keeps a queue, moves its tag, and changes nothing it holds if it fails. -/
theorem Queued.perform {answer : Except Error Answer} (hrecord : Records record)
    (h : Queued record capacity drained s) (hperform : s.perform operation = (answer, s')) :
    Queued record capacity (drained ++ Exchange.drained (operation, answer)) s'
      ∧ s'.phase = s.phase.after (operation, answer)
      ∧ ∀ e, answer = .error e → s'.phase = s.phase ∧ s'.destination = s.destination := by
  cases operation with
  | push _ | flush | finish =>
      rcases s.step_cases _ _ with ⟨-, hstep⟩ | ⟨result, codec, hactive, hcodec, hstep⟩
      · rw [perform_of_refused rfl hstep] at hperform
        cases hperform
        exact h.refused (by simp) _
      · rw [perform_of_step rfl hstep] at hperform
        cases hperform
        rw [drained_of_asks, List.append_nil, hactive]
        refine ⟨h.step hrecord hcodec _, rfl, fun e he => ?_⟩
        cases result with
        | ok done => cases he
        | error e' => exact ⟨rfl, rfl⟩
  | drain =>
      obtain ⟨codec, destination, phase⟩ := s
      by_cases hclosed : phase = .closed
      · subst hclosed
        cases hperform
        exact h.refused (by simp) _
      · rw [Session.perform, drain_of_ne_closed codec destination hclosed] at hperform
        cases hperform
        refine ⟨⟨?_, DestinationBuffer.fits_rewind _, h.capacity⟩, ?_, fun e he => by cases he⟩
        · rw [← h.bytes]
          exact List.append_nil _
        · cases phase <;> rfl
  | endOfInput =>
      obtain ⟨codec, destination, phase⟩ := s
      cases hend : endOfInput ⟨codec, destination, phase⟩ with
      | error e =>
          rw [Session.perform, hend] at hperform
          cases hperform
          exact h.refused (by simp) _
      | ok =>
          rw [Session.perform, hend] at hperform
          cases hperform
          refine ⟨?_, by cases phase <;> rfl, fun e he => by cases he⟩
          rw [show Exchange.drained (.endOfInput, _) = [] from rfl, List.append_nil]
          exact h
  | close =>
      cases hperform
      refine ⟨?_, by cases s.phase <;> rfl, fun e he => by cases he⟩
      rw [show Exchange.drained (.close, _) = [] from rfl, List.append_nil]
      exact h.with_phase .closed

/-- **Operations one after another** keep a queue, and move its tag. -/
theorem Queued.performAll (hrecord : Records record) : ∀ {operations : List Operation}
    {exchanges : List Exchange} {drained : List UInt8} {s s' : Session κ},
    Queued record capacity drained s → s.performAll operations = (exchanges, s') →
    Queued record capacity (drained ++ drainedBy exchanges) s'
      ∧ s'.phase = exchanges.foldl Phase.after s.phase := by
  intro operations
  induction operations with
  | nil =>
      intro exchanges drained s s' h hperform
      cases hperform
      rw [show drainedBy [] = [] from rfl, List.append_nil]
      exact ⟨h, rfl⟩
  | cons operation rest ih =>
      intro exchanges drained s s' h hperform
      obtain ⟨answer, s₁, hfirst⟩ : ∃ answer s₁, s.perform operation = (answer, s₁) := ⟨_, _, rfl⟩
      obtain ⟨later, s₂, hrest⟩ : ∃ later s₂, s₁.performAll rest = (later, s₂) := ⟨_, _, rfl⟩
      simp only [Session.performAll, hfirst, hrest] at hperform
      cases hperform
      obtain ⟨h₁, hphase, -⟩ := h.perform hrecord hfirst
      obtain ⟨h₂, hphases⟩ := ih h₁ hrest
      refine ⟨?_, ?_⟩
      · rw [List.append_assoc] at h₂
        exact h₂
      · rw [List.foldl_cons, ← hphase]
        exact hphases

/-- A push that succeeds is one call, and tells what that call used and whether it filled the
destination. -/
theorem Queued.pushed {drained : List UInt8} {p : Pushed} (hrecord : Records record)
    (h : Queued record capacity drained s) (hpush : s.push input = (.ok p, s')) :
    (p.full = true ↔ s'.destination.bytes.size = capacity)
      ∧ ∃ step, record s'.codec = record s.codec ++ [⟨input, s.destination.free, .feed, .ok step⟩]
        ∧ p.consumed = step.consumed := by
  rcases s.step_cases input .feed with ⟨-, hstep⟩ | ⟨result, codec, -, hcodec, hstep⟩
  · simp only [push, hstep] at hpush
    cases hpush
  · simp only [push, hstep] at hpush
    cases result <;> cases hpush
    next done =>
    refine ⟨?_, done, hrecord hcodec, rfl⟩
    rw [DestinationBuffer.isFull, beq_iff_eq, ← h.capacity]
    rfl

omit [Codec κ] in
theorem queued_new {codec : κ} (capacity : Nat) (hcodec : record codec = []) :
    Queued record capacity [] ⟨codec, ⟨.empty, capacity⟩, .active⟩ :=
  ⟨by rw [hcodec]; rfl, Nat.zero_le _, rfl⟩

/-- A new session whose codec has made no call is a tagged queue. -/
theorem taggedQueue_new (hrecord : Records record) (codec : κ) (capacity : Nat)
    (hcodec : record codec = []) :
    TaggedQueue record capacity ⟨codec, ⟨.empty, capacity⟩, .active⟩ where
  bytes h _ := ((queued_new capacity hcodec).performAll hrecord h).1.bytes
  size_le h := by
    obtain ⟨hqueued, -⟩ := (queued_new capacity hcodec).performAll hrecord h
    exact hqueued.capacity ▸ hqueued.fits
  phase h := ((queued_new capacity hcodec).performAll hrecord h).2
  pushed h hpush := ((queued_new capacity hcodec).performAll hrecord h).1.pushed hrecord hpush
  failed h hperform := by
    obtain ⟨hqueued, -⟩ := (queued_new capacity hcodec).performAll hrecord h
    exact (hqueued.perform hrecord hperform).2.2 _ rfl
  finished {_ _ s} _ hfinished := by
    refine ⟨fun operation hasks => perform_of_ne_active (by simp [hfinished]) hasks, ?_⟩
    obtain ⟨codec', destination, phase⟩ := s
    obtain rfl : phase = .finished := hfinished
    exact drain_of_ne_closed codec' destination (by simp)
  closed {_ _ s} _ hclosed := by
    obtain ⟨codec', destination, phase⟩ := s
    obtain rfl : phase = .closed := hclosed
    refine ⟨fun operation hclose => ?_, rfl⟩
    cases operation with
    | close => exact absurd rfl hclose
    | drain => rfl
    | endOfInput => rfl
    | push _ | flush | finish => exact perform_of_ne_active (by simp) (by simp [Operation.asks])

end Operation

theorem records_recorded {κ : Type} [Codec κ] :
    Records (Recorded.record : Recorded κ → List StepCall) := by
  intro codec codec' input room directive result h
  obtain ⟨result', inner, hinner⟩ : ∃ result' inner,
      Codec.step codec.codec input room directive = (result', inner) := ⟨_, _, rfl⟩
  replace h : codec.step input room directive = (result, codec') := h
  simp only [Recorded.step, hinner] at h
  cases h
  exact Array.toList_push

theorem records_framed {κ : Type} [Codec κ] :
    Records (Framed.record : Framed (Recorded κ) → List StepCall) := by
  intro f f' input room directive result h
  obtain ⟨result', inner, hinner⟩ : ∃ result' inner,
      Codec.step f.codec input room directive = (result', inner) := ⟨_, _, rfl⟩
  have hrecord := records_recorded hinner
  replace h : f.step input room directive = (result, f') := h
  simp only [Framed.step, hinner] at h
  cases result' with
  | error e => cases h; exact hrecord
  | ok done =>
      cases hcompletion : done.completion <;>
        (simp only [hcompletion] at h; cases h; exact hrecord)

end Session

/-- **A session is a tagged queue of bytes.** Take any codec, whose steps may fail, and a
destination of any length; and let a new session, one that compresses or one that decompresses, be
asked for any operations in any order. -/
theorem sessions_are_tagged_queues {κ : Type} [Codec κ] (memory : Memory) :
    (∀ (codec : κ) (length : Nat) (first : Session (Recorded κ)),
      Session.create memory ⟨codec, #[]⟩ length = .ok first →
      first.TaggedQueue Recorded.record length)
    ∧ (∀ (make : CompressorOptions → Except Error κ) (o : CompressorOptions) (log log' : Log)
        (first : Session (Recorded κ)),
      Session.compressor memory (tracing make) o log = (.ok first, log') →
      first.TaggedQueue Recorded.record o.destinationLength)
    ∧ ∀ (make : DecompressorOptions → Except Error κ) (o : DecompressorOptions) (log log' : Log)
        (first : Session (Framed (Recorded κ))),
      Session.decompressor memory (recording make) o log = (.ok first, log') →
      first.TaggedQueue Framed.record o.destinationLength := by
  refine ⟨fun codec length first h => ?_, fun make o log log' first h => ?_,
    fun make o log log' first h => ?_⟩
  · rw [Session.create_eq h]
    exact Session.taggedQueue_new Session.records_recorded _ length rfl
  · obtain ⟨start, hmake, rfl⟩ := Session.compressor_ok h
    exact Session.taggedQueue_new Session.records_recorded start _ (Steps.nil.record_eq hmake)
  · obtain ⟨start, hmake, rfl⟩ := Session.decompressor_ok h
    exact Session.taggedQueue_new Session.records_framed start _ (Steps.nil.framed_record_eq hmake)

/-! ### A codec that fails once -/

namespace Faulty

def source : Slice := .ofBytes ⟨#[7, 7]⟩

def codec : ScriptedCodec :=
  ⟨[.act 1 ⟨#[1]⟩ .pending, .fail .corruptedSource, .act 1 ⟨#[2]⟩ .pending, .act 0 .empty .pending,
    .act 0 ⟨#[3]⟩ .done]⟩

def session : Session (Recorded ScriptedCodec) := ⟨⟨codec, #[]⟩, ⟨.empty, 2⟩, .active⟩

/-- Two pushes with a failure between them, a finish into a full destination and another behind a
drain, and a push that comes too late. -/
def operations : List Session.Operation :=
  [.push source, .push source, .push (source.drop 1), .finish, .drain, .finish, .push source]

end Faulty

/-- The failure costs nothing, and the finished session holds what it has not been drained of. -/
theorem sessions_are_tagged_queues_when_faulty :
    let exchanges := (Faulty.session.performAll Faulty.operations).1
    let s := (Faulty.session.performAll Faulty.operations).2
    Session.create .machine ⟨Faulty.codec, #[]⟩ 2 = .ok Faulty.session
      ∧ Session.drainedBy exchanges = [1, 2] ∧ s.destination.bytes.data.toList = [3]
      ∧ givenBy s.codec.record = [1, 2] ++ [3]
      ∧ s.phase = .finished ∧ Session.phaseAfter exchanges = .finished
      ∧ s.perform .finish = (.error .usedAfterClose, s) := by
  have hcreate : Session.create .machine ⟨Faulty.codec, #[]⟩ 2 = .ok Faulty.session := rfl
  have hqueue := (sessions_are_tagged_queues (κ := ScriptedCodec) .machine).1 _ _ _ hcreate
  have hphase : (Faulty.session.performAll Faulty.operations).2.phase = .finished := rfl
  refine ⟨hcreate, rfl, rfl, ?_, hphase, ?_, ?_⟩
  · exact (hqueue.bytes rfl (by rw [hphase]; simp)).symm
  · exact (hqueue.phase rfl).symm.trans hphase
  · exact (hqueue.finished rfl hphase).1 .finish (by simp [Session.Operation.asks])

end Zstandard
