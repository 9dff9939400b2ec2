import Zstandard.Proofs.CompressingWriter
import Zstandard.Proofs.DecompressingWriter
import Zstandard.Proofs.Progress

/-!
# Writers around a codec that makes progress

A writer repeats a call of its codec within one operation only once the call has filled its room and
what it put out has been accepted by the writer behind; the next call has the whole destination
before it (`Repeats`). With a codec that makes progress nothing else can keep an operation from its
end but the failure of a call, so neither writer ever reports that it is stuck.
-/

namespace Zstandard

/-! ## Repeated calls -/

/-- Some calls, the later of which are repetitions: the call before each has filled its room, and
`ends` have accepted what was put out until then. -/
inductive Repeats (capacity : Nat) (ends : List EndCall) : List StepCall → List StepCall → Prop
    where
  | none {before : List StepCall} : Repeats capacity ends before []
  | once {before : List StepCall} (c : StepCall) : Repeats capacity ends before [c]
  | again {before calls : List StepCall} {c d : StepCall} : ¬ c.LeavesRoom →
      givenBy (before ++ [c]) <+: acceptedBy ends → d.room = capacity →
      Repeats capacity ends (before ++ [c]) (d :: calls) →
      Repeats capacity ends before (c :: d :: calls)

theorem acceptedBy_mono {ends ends' : List EndCall} (h : ends <+: ends') :
    acceptedBy ends <+: acceptedBy ends' := by
  obtain ⟨more, rfl⟩ := h
  rw [acceptedBy_append]
  exact List.prefix_append _ _

theorem Repeats.mono {capacity : Nat} {ends ends' : List EndCall} {before calls : List StepCall}
    (h : Repeats capacity ends before calls) (hends : ends <+: ends') :
    Repeats capacity ends' before calls := by
  induction h with
  | none => exact .none
  | once c => exact .once c
  | again hfull hgiven hroom _ ih =>
      exact .again hfull (hgiven.trans (acceptedBy_mono hends)) hroom ih

/-- An operation of a writer has made the calls `calls` after those `before`, the first of them with
`room`, while the calls of the writer behind went from `ends` to `ends'`. -/
structure Rounds {κ : Type} [Codec κ] (start : κ) (capacity room : Nat)
    (before calls : List StepCall) (codec : κ) (ends ends' : List EndCall) : Prop where
  roomy : Roomy start (before ++ calls) codec
  /-- The first had the room that was left. -/
  first : ∀ c ∈ calls.head?, c.room = room
  /-- The others are repetitions. -/
  repeats : Repeats capacity ends' before calls
  ends : ends <+: ends'

section Rounds

variable {κ : Type} [Codec κ] {start codec : κ} {capacity room : Nat}
  {before calls : List StepCall} {c : StepCall} {ends ends' ends'' : List EndCall}

theorem Roomy.no_rounds (h : Roomy start before codec) (ends : List EndCall) :
    Rounds start capacity room before [] codec ends ends :=
  ⟨by rwa [List.append_nil], by simp, .none, List.prefix_refl _⟩

theorem Roomy.one_round (h : Roomy start (before ++ [c]) codec) (hends : ends <+: ends') :
    Rounds start capacity c.room before [c] codec ends ends' :=
  ⟨h, fun d hd => by cases hd; rfl, .once c, hends⟩

/-- A call that has filled its room may be repeated when its output has been accepted. -/
theorem Rounds.again (h : Rounds start capacity capacity (before ++ [c]) calls codec ends' ends'')
    (hfull : ¬ c.LeavesRoom) (hgiven : givenBy (before ++ [c]) = acceptedBy ends')
    (hends : ends <+: ends') :
    Rounds start capacity c.room before (c :: calls) codec ends ends'' := by
  have hroomy : Roomy start (before ++ c :: calls) codec := by
    rw [← List.singleton_append, ← List.append_assoc]
    exact h.roomy
  refine ⟨hroomy, fun d hd => by cases hd; rfl, ?_, hends.trans h.ends⟩
  cases calls with
  | nil => exact .once c
  | cons d calls =>
      exact .again hfull (hgiven ▸ acceptedBy_mono h.ends) (h.first d rfl) h.repeats

theorem Rounds.extend (h : Rounds start capacity room before calls codec ends ends')
    (hends : ends' <+: ends'') : Rounds start capacity room before calls codec ends ends'' :=
  ⟨h.roomy, h.first, h.repeats.mono hends, h.ends.trans hends⟩

/-- An operation has halted: not for want of turns, but for the failure of a call. -/
def Foiled (start : κ) (capacity room : Nat) (before : List StepCall) (codec : κ)
    (ends ends' : List EndCall) (x : Halt Error) : Prop :=
  ∃ calls, Rounds start capacity room before calls codec ends ends'
    ∧ ∀ e, x = .failed e → FromCall (before ++ calls) ends' e

theorem Rounds.foiled (h : Rounds start capacity room before calls codec ends ends')
    {more : List EndCall} (hmore : ends' = ends ++ more) {α : Type} {x : Halt Error}
    (hx : Explains EndCall.error? more (.error x : Except (Halt Error) α)) :
    Foiled start capacity room before codec ends ends' x := by
  refine ⟨calls, h, fun e he => ?_⟩
  subst he hmore
  obtain ⟨c, hc, he⟩ := hx.exists_mem
  exact Or.inr ⟨c, List.mem_append_right _ hc, he⟩

/-- A flush of the writer behind fails. -/
theorem Rounds.flush_failed (h : Rounds start capacity room before calls codec ends ends')
    (e : IoError) : Foiled start capacity room before codec ends
      (ends' ++ [.flush (.error e)]) (.failed (.writeIo e)) := by
  refine ⟨calls, h.extend (List.prefix_append _ _), fun _ hx => ?_⟩
  cases hx
  exact Or.inr ⟨_, List.mem_append_right _ (List.mem_singleton_self _), rfl⟩

/-- Some work on a writer makes rounds of calls, and `Q` holds of all the calls if it succeeds. The
session of the writer, and the calls of the writer behind, are those that `session` and `target`
give of its state. -/
def GoesRound {σ α : Type} (session : σ → Session κ) (target : σ → List EndCall) (start : κ)
    (capacity room : Nat) (before : List StepCall) (ends : List EndCall)
    (Q : List StepCall → σ → Prop) (work : EStateM (Halt Error) σ α) (s : σ) : Prop :=
  Ensures work s
    (fun _ s' => ∃ calls,
      Rounds start capacity room before calls (session s').codec ends (target s')
        ∧ Q (before ++ calls) s')
    (fun x s' => Foiled start capacity room before (session s').codec ends (target s') x)

/-- **A call and then the rest**: once the call has filled its room and its output is accepted. -/
theorem GoesRound.again {σ α : Type} {session : σ → Session κ} {target : σ → List EndCall}
    {Q : List StepCall → σ → Prop} {work : EStateM (Halt Error) σ α} {s : σ}
    (h : GoesRound session target start capacity capacity (before ++ [c]) ends' Q work s)
    (hfull : ¬ c.LeavesRoom) (hgiven : givenBy (before ++ [c]) = acceptedBy ends')
    (hends : ends <+: ends') :
    GoesRound session target start capacity c.room before ends Q work s := by
  have happend : ∀ calls, before ++ [c] ++ calls = before ++ c :: calls := fun calls => by
    rw [List.append_assoc, List.singleton_append]
  refine Ensures.mono h ?_ ?_
  · rintro _ s' ⟨calls, hrounds, hQ⟩
    exact ⟨c :: calls, hrounds.again hfull hgiven hends, happend calls ▸ hQ⟩
  · rintro x s' ⟨calls, hrounds, hx⟩
    exact ⟨c :: calls, hrounds.again hfull hgiven hends, happend calls ▸ hx⟩

end Rounds

/-! ## Sessions -/

namespace Session

variable {κ : Type} [Codec κ]

/-- Each call of the codec had room, and so will the next; what was put out has been accepted by the
writer behind, or is in the destination. -/
structure Posted (start : κ) (capacity : Nat) (calls : List StepCall) (s : Session κ)
    (ends : List EndCall) : Prop where
  roomy : Roomy start calls s.codec
  active : s.phase = .active
  fits : s.destination.Fits
  capacity_eq : s.destination.capacity = capacity
  room : s.destination.isFull = false
  /-- What was put out has been accepted, or is in it. -/
  output : givenBy calls = acceptedBy ends ++ s.destination.bytes.data.toList

variable {start codec : κ} {capacity : Nat} {calls : List StepCall} {s : Session κ}
  {ends ends' : List EndCall} {input : Slice} {directive : Directive} {step : Step}

theorem Posted.free_pos (h : s.Posted start capacity calls ends) : 0 < s.destination.free :=
  h.fits.free_pos_iff.mpr h.room

theorem Posted.stepped (h : s.Posted start capacity calls ends)
    (hstep : Codec.step s.codec input s.destination.free directive = (.ok step, codec))
    (hroom : (s.destination.append step.produced).isFull = false) :
    Posted start capacity (calls ++ [⟨input, s.destination.free, directive, .ok step⟩])
      ⟨codec, s.destination.append step.produced, .active⟩ ends where
  roomy := h.roomy.snoc hstep h.free_pos
  active := rfl
  fits := h.fits.append (Codec.produced_le hstep)
  capacity_eq := h.capacity_eq
  room := hroom
  output := by
    rw [givenBy_snoc_ok, h.output, DestinationBuffer.toList_append, List.append_assoc]

/-- A step whose output has been accepted, with what was held before it. -/
theorem Posted.drained (h : s.Posted start capacity calls ends)
    (hstep : Codec.step s.codec input s.destination.free directive = (.ok step, codec))
    (haccepted : acceptedBy ends' = acceptedBy ends
      ++ (s.destination.append step.produced).bytes.data.toList) :
    Posted start capacity (calls ++ [⟨input, s.destination.free, directive, .ok step⟩])
      ⟨codec, (s.destination.append step.produced).rewind, .active⟩ ends' where
  roomy := h.roomy.snoc hstep h.free_pos
  active := rfl
  fits := DestinationBuffer.fits_rewind _
  capacity_eq := h.capacity_eq
  room := by
    have hfree := h.free_pos
    unfold DestinationBuffer.free at hfree
    refine beq_eq_false_iff_ne.mpr (Nat.ne_of_lt ?_)
    show 0 < s.destination.capacity
    omega
  output := by
    rw [givenBy_snoc_ok, h.output, haccepted, DestinationBuffer.toList_append,
      DestinationBuffer.toList_rewind, List.append_nil, List.append_assoc]

/-- A step that fails. -/
theorem Posted.foiled {e : Error} (h : s.Posted start capacity calls ends)
    (hstep : Codec.step s.codec input s.destination.free directive = (.error e, codec)) :
    Foiled start capacity s.destination.free calls codec ends ends (.failed e) := by
  refine ⟨_, (h.roomy.snoc hstep h.free_pos).one_round (List.prefix_refl ends), fun _ hx => ?_⟩
  cases hx
  exact .of_step

/-- A step that has filled the destination has filled its room. -/
theorem Posted.not_leavesRoom (h : s.Posted start capacity calls ends)
    (hstep : Codec.step s.codec input s.destination.free directive = (.ok step, codec))
    (hfull : (s.destination.append step.produced).isFull = true) :
    ¬ StepCall.LeavesRoom ⟨input, s.destination.free, directive, .ok step⟩ := by
  intro hleaves
  rw [(DestinationBuffer.isFull_append h.fits (Codec.produced_le hstep)).mpr hleaves] at hfull
  cases hfull

/-- After a drain, all that was put out has been accepted. -/
theorem Posted.given_eq (h : s.Posted start capacity calls ends)
    (hempty : s.destination.bytes = .empty) : givenBy calls = acceptedBy ends := by
  rw [h.output, hempty]
  exact List.append_nil _

theorem Posted.free_of_drained (h : s.Posted start capacity calls ends)
    (hempty : s.destination.bytes = .empty) : s.destination.free = capacity :=
  (DestinationBuffer.free_of_empty hempty).trans h.capacity_eq

/-- **Another round**: a step has filled the destination, which has been drained since. -/
theorem Posted.goes_again {σ α : Type} {session : σ → Session κ} {target : σ → List EndCall}
    {Q : List StepCall → σ → Prop} {work : EStateM (Halt Error) σ α} {t : σ}
    (h : s.Posted start capacity calls ends)
    (hrest : GoesRound session target start capacity (session t).destination.free
      (calls ++ [⟨input, s.destination.free, directive, .ok step⟩]) (target t) Q work t)
    (hstep : Codec.step s.codec input s.destination.free directive = (.ok step, codec))
    (hfull : (s.destination.append step.produced).isFull = true)
    (hposted : (session t).Posted start capacity
      (calls ++ [⟨input, s.destination.free, directive, .ok step⟩]) (target t))
    (hempty : (session t).destination.bytes = .empty) (hends : ends <+: target t) :
    GoesRound session target start capacity s.destination.free calls ends Q work t := by
  rw [hposted.free_of_drained hempty] at hrest
  exact hrest.again (h.not_leavesRoom hstep hfull) (hposted.given_eq hempty) hends

theorem posted_new (codec : κ) {destinationLength : Nat} (hroom : 0 < destinationLength) :
    Posted codec destinationLength [] ⟨codec, ⟨.empty, destinationLength⟩, .active⟩ [] :=
  ⟨roomy_nil codec, rfl, Nat.zero_le _, rfl, beq_eq_false_iff_ne.mpr (Nat.ne_of_lt hroom), rfl⟩

/-- The request is one step without input. It tells whether more is to come, and leaves the session
in `after` if not. -/
structure Asks (request : Session κ → Except Error Bool × Session κ) (directive : Directive)
    (after : Phase) : Prop where
  ok : ∀ {codec codec' : κ} {destination : DestinationBuffer} {s : Step},
    Codec.step codec .empty destination.free directive = (.ok s, codec') →
    request ⟨codec, destination, .active⟩
      = (.ok (s.completion == .pending), ⟨codec', destination.append s.produced,
          if s.completion = .pending then .active else after⟩)
  error : ∀ {codec codec' : κ} {destination : DestinationBuffer} {e : Error},
    Codec.step codec .empty destination.free directive = (.error e, codec') →
    request ⟨codec, destination, .active⟩ = (.error e, ⟨codec', destination, .active⟩)

theorem asks_flush : Asks (flush (κ := κ)) .flush .active where
  ok h := by rw [flush_ok h, ite_self]
  error h := flush_error h

theorem asks_finish : Asks (finish (κ := κ)) .finish .finished where
  ok := by
    intro codec codec' destination s h
    cases hs : s.completion with
    | pending => rw [finish_pending h hs]; rfl
    | done => rw [finish_done h hs]; rfl
  error h := finish_error h

end Session

/-! ## Compressing writers -/

namespace CompressingWriter

variable {κ ω : Type} [Codec κ]

/-- A push is a step of an active session. -/
theorem onSession_push (input : Slice) {c : CompressingWriter κ (Observed ω)}
    (hactive : c.session.phase = .active) :
    Ensures (onSession (Session.push input)) c
      (fun p c' => ∃ s codec', Codec.step c.session.codec input c.session.destination.free .feed
            = (.ok s, codec')
        ∧ p = ⟨s.consumed, (c.session.destination.append s.produced).isFull⟩
        ∧ c' = ⟨c.writer, ⟨codec', c.session.destination.append s.produced, .active⟩⟩)
      (fun x c' => ∃ e codec', x = .failed e
        ∧ Codec.step c.session.codec input c.session.destination.free .feed = (.error e, codec')
        ∧ c' = ⟨c.writer, ⟨codec', c.session.destination, .active⟩⟩) := by
  obtain ⟨writer, ⟨codec, destination, phase⟩⟩ := c
  obtain rfl : phase = .active := hactive
  obtain ⟨result, codec', hstep⟩ : ∃ result codec',
      Codec.step codec input destination.free .feed = (result, codec') := ⟨_, _, rfl⟩
  cases result with
  | ok s =>
      refine Ensures.intro (fun p c' hw => ?_) (fun x c' hw => ?_)
      all_goals simp only [onSession, Session.push_ok hstep] at hw; cases hw
      exact ⟨s, codec', hstep, rfl, rfl⟩
  | error e =>
      refine Ensures.intro (fun p c' hw => ?_) (fun x c' hw => ?_)
      all_goals simp only [onSession, Session.push_error hstep] at hw; cases hw
      exact ⟨e, codec', rfl, hstep, rfl⟩

/-- A request is a step of an active session. -/
theorem onSession_asks {request : Session κ → Except Error Bool × Session κ}
    {directive : Directive} {after : Phase} (hasks : Session.Asks request directive after)
    {c : CompressingWriter κ (Observed ω)} (hactive : c.session.phase = .active) :
    Ensures (onSession request) c
      (fun more c' => ∃ s codec',
        Codec.step c.session.codec .empty c.session.destination.free directive = (.ok s, codec')
        ∧ more = (s.completion == .pending)
        ∧ c' = ⟨c.writer, ⟨codec', c.session.destination.append s.produced,
            if s.completion = .pending then .active else after⟩⟩)
      (fun x c' => ∃ e codec', x = .failed e
        ∧ Codec.step c.session.codec .empty c.session.destination.free directive
            = (.error e, codec')
        ∧ c' = ⟨c.writer, ⟨codec', c.session.destination, .active⟩⟩) := by
  obtain ⟨writer, ⟨codec, destination, phase⟩⟩ := c
  obtain rfl : phase = .active := hactive
  obtain ⟨result, codec', hstep⟩ : ∃ result codec',
      Codec.step codec .empty destination.free directive = (result, codec') := ⟨_, _, rfl⟩
  cases result with
  | ok s =>
      refine Ensures.intro (fun more c' hw => ?_) (fun x c' hw => ?_)
      all_goals simp only [onSession, hasks.ok hstep] at hw; cases hw
      exact ⟨s, codec', hstep, rfl, rfl⟩
  | error e =>
      refine Ensures.intro (fun more c' hw => ?_) (fun x c' hw => ?_)
      all_goals simp only [onSession, hasks.error hstep] at hw; cases hw
      exact ⟨e, codec', rfl, hstep, rfl⟩

variable [Writer ω]

omit [Codec κ] in
/-- What a drain does to a session that has just made a step, with what was held before it. -/
theorem drain_stepped (turns : Nat) {writer : Observed ω} {codec : κ} {b : DestinationBuffer}
    {phase : Phase} (hopen : phase ≠ .closed) :
    Ensures (drain turns) (⟨writer, ⟨codec, b, phase⟩⟩ : CompressingWriter κ (Observed ω))
      (fun n c' => n = b.bytes.size ∧ c'.session = ⟨codec, b.rewind, phase⟩
        ∧ writer.calls <+: c'.writer.calls
        ∧ acceptedBy c'.writer.calls = acceptedBy writer.calls ++ b.bytes.data.toList)
      (fun x c' => c'.session = ⟨codec, b.rewind, phase⟩
        ∧ ∃ more, c'.writer.calls = writer.calls ++ more
          ∧ Explains EndCall.error? more (.error x : Except (Halt Error) Unit)) := by
  have hdrain := Session.drain_of_ne_closed codec b hopen
  obtain ⟨more, hcalls, -, hmore, -, hall⟩ := writeAll_wroteAll turns writer (.ofBytes b.bytes)
  obtain ⟨result, writer', hwrite⟩ :
      ∃ result o, writeAll turns writer (.ofBytes b.bytes) = (result, o) := ⟨_, _, rfl⟩
  rw [hwrite] at hcalls hmore hall
  dsimp only at hcalls
  refine Ensures.intro (fun n c' hw => ?_) (fun x c' hw => ?_)
  all_goals
    simp only [drain, bind, EStateM.bind, onSession, hdrain, deliver, hwrite] at hw
    cases result <;> cases hw
  · refine ⟨rfl, rfl, ⟨more, hcalls.symm⟩, ?_⟩
    rw [hcalls, acceptedBy_append, hall rfl, Slice.toList_ofBytes]
  · exact ⟨rfl, more, hcalls, hmore⟩

/-- A writer that may go on. -/
abbrev Posts (start : κ) (capacity : Nat) (calls : List StepCall)
    (c : CompressingWriter κ (Observed ω)) : Prop :=
  c.session.Posted start capacity calls c.writer.calls

/-- Work on a writer makes rounds of calls. -/
abbrev Goes {α : Type} (start : κ) (capacity : Nat) (before : List StepCall)
    (Q : List StepCall → CompressingWriter κ (Observed ω) → Prop) (work : Work κ (Observed ω) α)
    (c : CompressingWriter κ (Observed ω)) : Prop :=
  GoesRound session (fun c => c.writer.calls) start capacity c.session.destination.free before
    c.writer.calls Q work c

/-- **Writing** repeats a push only when it has filled the destination. -/
theorem writeChunk_goes {start : κ} {capacity : Nat} (hstart : Progressing start)
    (input : Slice) : ∀ (turns : Nat) {calls : List StepCall}
    {c : CompressingWriter κ (Observed ω)}, Posts start capacity calls c →
    Goes start capacity calls (Posts start capacity) (writeChunk input turns) c := by
  intro turns
  -- each turn makes one more call, and the rest of the calls are those of the turns after it
  induction turns with
  | zero =>
      intro calls c h
      exact Ensures.throw ⟨[], h.roomy.no_rounds _, by simp⟩
  | succ turns ih =>
      intro calls c h
      refine Ensures.bind ((onSession_push input h.active).mono (fun _ _ hq => hq) ?_) ?_
      · rintro _ _ ⟨e, codec', rfl, hstep, rfl⟩
        exact h.foiled hstep
      rintro _ _ ⟨s, codec', hstep, rfl, rfl⟩
      have hroomy := h.roomy.snoc hstep h.free_pos
      show Ensures (if (c.session.destination.append s.produced).isFull = true then _ else _) _ _ _
      cases hfull : (c.session.destination.append s.produced).isFull with
      | true =>
          refine Ensures.bind ((drain_stepped turns (by decide)).mono (fun _ _ hq => hq) ?_) ?_
          · rintro x ⟨writer', _⟩ ⟨rfl, more, hmore, hx⟩
            exact (hroomy.one_round ⟨more, hmore.symm⟩).foiled hmore hx
          rintro n ⟨writer', _⟩ ⟨rfl, rfl, hends, haccepted⟩
          have hposted := h.drained hstep haccepted
          have hne := DestinationBuffer.size_append_ne_zero h.free_pos hfull
          show Ensures (if (c.session.destination.append s.produced).bytes.size = 0 then _
            else _) _ _ _
          rw [if_neg hne]
          show Ensures (if s.consumed ≠ 0 ∨ input.isEmpty = true then _ else _) _ _ _
          split
          · exact Ensures.pure ⟨_, hroomy.one_round hends, hposted⟩
          · -- the destination was filled and has been drained, so there is room for another push
            exact h.goes_again (ih (c := ⟨writer', _⟩) hposted) hstep hfull hposted rfl hends
      | false =>
          show Ensures (if s.consumed ≠ 0 ∨ input.isEmpty = true then _ else _) _ _ _
          split
          · exact Ensures.pure ⟨_, hroomy.one_round (List.prefix_refl _), h.stepped hstep hfull⟩
          · next hnothing =>
            -- a push that leaves room has used something
            obtain ⟨hconsumed, hinput⟩ := not_or.mp hnothing
            have hle := Codec.produced_le hstep
            have hleaves := (DestinationBuffer.isFull_append h.fits hle).mp hfull
            have hpos := hstart.consumed_pos h.roomy.steps hstep
              (fun hzero => hinput (beq_iff_eq.mpr hzero)) h.free_pos hleaves
            omega

/-- **A loop of requests** repeats one only when it has filled the destination. -/
theorem drainWhile_goes {start : κ} {capacity : Nat} (hfilling : Filling start)
    {request : Session κ → Except Error Bool × Session κ} {directive : Directive} {after : Phase}
    (hasks : Session.Asks request directive after) (hdirective : directive ≠ .feed)
    (hafter : after ≠ .closed) : ∀ (turns : Nat) {calls : List StepCall}
    {c : CompressingWriter κ (Observed ω)}, Posts start capacity calls c →
    Goes start capacity calls (fun calls c => after = .active → Posts start capacity calls c)
      (drainWhile request turns) c := by
  intro turns
  induction turns with
  | zero =>
      intro calls c h
      exact Ensures.throw ⟨[], h.roomy.no_rounds _, by simp⟩
  | succ turns ih =>
      intro calls c h
      refine Ensures.bind ((onSession_asks hasks h.active).mono (fun _ _ hq => hq) ?_) ?_
      · rintro _ _ ⟨e, codec', rfl, hstep, rfl⟩
        exact h.foiled hstep
      rintro _ _ ⟨s, codec', hstep, rfl, rfl⟩
      have hroomy := h.roomy.snoc hstep h.free_pos
      have hopen : (if s.completion = .pending then Phase.active else after) ≠ .closed := by
        split
        · decide
        · exact hafter
      refine Ensures.bind ((drain_stepped turns hopen).mono (fun _ _ hq => hq) ?_) ?_
      · rintro x ⟨writer', _⟩ ⟨rfl, more, hmore, hx⟩
        exact (hroomy.one_round ⟨more, hmore.symm⟩).foiled hmore hx
      rintro n ⟨writer', _⟩ ⟨-, rfl, hends, haccepted⟩
      have hposted := h.drained hstep haccepted
      cases hs : s.completion with
      | done =>
          refine Ensures.pure ⟨_, hroomy.one_round hends, fun hactive => ?_⟩
          obtain rfl := hactive
          exact hposted
      | pending =>
          -- a request that has more to come has filled the destination
          have hfull := h.fits.isFull_of_free_le (Codec.produced_le hstep)
            (hfilling.room_le h.roomy.steps hdirective hstep hs)
          exact h.goes_again (ih (c := ⟨writer', _⟩) hposted) hstep hfull hposted rfl hends

/-- A flush of the writer behind comes after the rounds. -/
theorem Goes.flushWriter {α : Type} {start : κ} {capacity : Nat} {calls : List StepCall}
    {Q : List StepCall → CompressingWriter κ (Observed ω) → Prop} {work : Work κ (Observed ω) α}
    {c : CompressingWriter κ (Observed ω)} (h : Goes start capacity calls Q work c)
    (hQ : ∀ {calls : List StepCall} {c c' : CompressingWriter κ (Observed ω)},
      c'.session = c.session → acceptedBy c'.writer.calls = acceptedBy c.writer.calls →
      Q calls c → Q calls c') :
    Goes start capacity calls Q (do let _ ← work; flushWriter) c := by
  refine Ensures.bind h ?_
  rintro _ c₁ ⟨more, hrounds, h₁⟩
  refine (flushWriter_calls c₁).mono ?_ ?_
  · rintro _ c₂ ⟨hsession, hcalls⟩
    have haccepted : acceptedBy c₂.writer.calls = acceptedBy c₁.writer.calls := by
      simp [hcalls, EndCall.accepted]
    refine ⟨more, ?_, hQ hsession haccepted h₁⟩
    simp only [hsession, hcalls]
    exact hrounds.extend (List.prefix_append _ _)
  · rintro _ c₂ ⟨e, rfl, hsession, hcalls⟩
    simp only [hsession, hcalls]
    exact hrounds.flush_failed e

omit [Writer ω] in
/-- A flush of the writer behind changes nothing for the session. -/
theorem Posts.flushed {start : κ} {capacity : Nat} {calls : List StepCall}
    {c c' : CompressingWriter κ (Observed ω)} (hsession : c'.session = c.session)
    (haccepted : acceptedBy c'.writer.calls = acceptedBy c.writer.calls)
    (h : Posts start capacity calls c) : Posts start capacity calls c' := by
  unfold Posts
  rw [hsession]
  exact { h with output := haccepted ▸ h.output }

section Operations

variable {start : κ} {capacity : Nat} {calls : List StepCall}
  {c : CompressingWriter κ (Observed ω)}

/-- **Flushing** leaves the session ready. -/
theorem flushFrame_goes (hfilling : Filling start) (turns : Nat)
    (h : Posts start capacity calls c) :
    Goes start capacity calls (Posts start capacity) (flushFrame turns) c := by
  have hgoes := drainWhile_goes hfilling Session.asks_flush (by decide) (by decide) turns h
  refine Goes.flushWriter (Ensures.mono hgoes ?_ fun _ _ hx => hx) Posts.flushed
  exact fun _ _ ⟨more, hrounds, hposts⟩ => ⟨more, hrounds, hposts rfl⟩

/-- **Finishing** closes the frame. -/
theorem finishFrame_goes (hfilling : Filling start) (turns : Nat)
    (h : Posts start capacity calls c) :
    Goes start capacity calls (fun _ _ => True) (finishFrame turns) c := by
  have hgoes := drainWhile_goes hfilling Session.asks_finish (by decide) (by decide) turns h
  refine Goes.flushWriter (Ensures.mono hgoes ?_ fun _ _ hx => hx) fun _ _ _ => trivial
  exact fun _ _ ⟨more, hrounds, _⟩ => ⟨more, hrounds, trivial⟩

end Operations

end CompressingWriter

/-! ## Decompressing writers -/

namespace DecompressingWriter

variable {κ ω : Type} [Codec κ] [Writer ω] {start : κ} {capacity : Nat}

/-- A writer that may go on. -/
abbrev Posts (start : κ) (capacity : Nat) (calls : List StepCall)
    (d : DecompressingWriter κ (Observed ω)) : Prop :=
  d.session.Posted start capacity calls d.writer.calls

/-- Work on a writer makes rounds of calls. -/
abbrev Goes {α : Type} (start : κ) (capacity : Nat) (before : List StepCall)
    (Q : List StepCall → DecompressingWriter κ (Observed ω) → Prop) (work : Work κ (Observed ω) α)
    (d : DecompressingWriter κ (Observed ω)) : Prop :=
  GoesRound session (fun d => d.writer.calls) start capacity d.session.destination.free before
    d.writer.calls Q work d

/-- A push is a step of the codec, whose output is written out. -/
theorem pushThrough_stepped (turns : Nat) (input : Slice) {calls : List StepCall}
    {d : DecompressingWriter κ (Observed ω)} (h : Posts start capacity calls d) :
    Ensures (pushThrough turns input) d
      (fun p d' => ∃ s codec',
        Codec.step d.session.codec input d.session.destination.free .feed = (.ok s, codec')
        ∧ p = ⟨s.consumed, (d.session.destination.append s.produced).isFull⟩
        ∧ d'.session = ⟨codec', (d.session.destination.append s.produced).rewind, .active⟩
        ∧ d.writer.calls <+: d'.writer.calls
        ∧ acceptedBy d'.writer.calls = acceptedBy d.writer.calls
          ++ (d.session.destination.append s.produced).bytes.data.toList)
      (fun x d' => Foiled start capacity d.session.destination.free calls d'.session.codec
        d.writer.calls d'.writer.calls x) := by
  obtain ⟨writer, ⟨codec, destination, phase⟩⟩ := d
  obtain rfl : phase = .active := h.active
  obtain ⟨result, codec', hstep⟩ : ∃ result codec',
      Codec.step codec input destination.free .feed = (result, codec') := ⟨_, _, rfl⟩
  cases result with
  | error e =>
      refine Ensures.intro (fun p d' hw => ?_) (fun x d' hw => ?_)
      all_goals
        simp only [pushThrough, bind, EStateM.bind, onSession, Session.push_error hstep] at hw
        cases hw
      exact h.foiled hstep
  | ok s =>
      obtain ⟨more, hcalls, -, hmore, -, hall⟩ :=
        writeAll_wroteAll turns writer (.ofBytes (destination.append s.produced).bytes)
      obtain ⟨written, writer', hwrite⟩ : ∃ r o, writeAll turns writer
          (.ofBytes (destination.append s.produced).bytes) = (r, o) := ⟨_, _, rfl⟩
      rw [hwrite] at hcalls hmore hall
      dsimp only at hcalls
      refine Ensures.intro (fun p d' hw => ?_) (fun x d' hw => ?_)
      all_goals
        simp only [pushThrough, bind, EStateM.bind, onSession, Session.push_ok hstep,
          Session.drain_active, hwrite] at hw
        cases written <;> cases hw
      · refine ⟨s, codec', hstep, rfl, rfl, ⟨more, hcalls.symm⟩, ?_⟩
        rw [hcalls, acceptedBy_append, hall rfl, Slice.toList_ofBytes]
      · have hroomy := h.roomy.snoc hstep h.free_pos
        exact (hroomy.one_round ⟨more, hcalls.symm⟩).foiled hcalls hmore

/-- **Writing** repeats a push only when it has filled the destination. -/
theorem writeChunk_goes (hstart : Progressing start) (input : Slice) : ∀ (turns : Nat)
    {calls : List StepCall} {d : DecompressingWriter κ (Observed ω)},
    Posts start capacity calls d →
    Goes start capacity calls (Posts start capacity) (writeChunk input turns) d := by
  intro turns
  induction turns with
  | zero =>
      intro calls d h
      exact Ensures.throw ⟨[], h.roomy.no_rounds _, by simp⟩
  | succ turns ih =>
      intro calls d h
      refine Ensures.bind (pushThrough_stepped turns input h) ?_
      rintro _ ⟨writer', _⟩ ⟨s, codec', hstep, rfl, rfl, hends, haccepted⟩
      have hposted := h.drained hstep haccepted
      show Ensures (if s.consumed ≠ 0 ∨ input.isEmpty = true then _ else _) _ _ _
      split
      · exact Ensures.pure ⟨_, hposted.roomy.one_round hends, hposted⟩
      · next hnothing =>
        show Ensures (if (d.session.destination.append s.produced).isFull = true then _
          else _) _ _ _
        split
        · next hfull =>
          exact h.goes_again (ih (d := ⟨writer', _⟩) hposted) hstep hfull hposted rfl hends
        · next hfull =>
          -- a push that leaves room has used something
          obtain ⟨hconsumed, hinput⟩ := not_or.mp hnothing
          have hleaves := (DestinationBuffer.isFull_append h.fits (Codec.produced_le hstep)).mp
            (Bool.not_eq_true _ ▸ hfull)
          have hpos := hstart.consumed_pos h.roomy.steps hstep
            (fun hzero => hinput (beq_iff_eq.mpr hzero)) h.free_pos hleaves
          omega

/-- **Settling** repeats a push only when it has filled the destination. -/
theorem settle_goes : ∀ (turns : Nat) {calls : List StepCall}
    {d : DecompressingWriter κ (Observed ω)}, Posts start capacity calls d →
    Goes start capacity calls (Posts start capacity) (settle turns) d := by
  intro turns
  induction turns with
  | zero =>
      intro calls d h
      exact Ensures.throw ⟨[], h.roomy.no_rounds _, by simp⟩
  | succ turns ih =>
      intro calls d h
      refine Ensures.bind (pushThrough_stepped turns .empty h) ?_
      rintro _ ⟨writer', _⟩ ⟨s, codec', hstep, rfl, rfl, hends, haccepted⟩
      have hposted := h.drained hstep haccepted
      show Ensures (if (d.session.destination.append s.produced).isFull = true then _ else _) _ _ _
      split
      · next hfull =>
        exact h.goes_again (ih (d := ⟨writer', _⟩) hposted) hstep hfull hposted rfl hends
      · exact Ensures.pure ⟨_, hposted.roomy.one_round hends, hposted⟩

/-- **Finishing** halts for the failure of a call, or because the input may not end here. -/
theorem finish_goes {turns : Nat} {calls : List StepCall}
    {d d' : DecompressingWriter κ (Observed ω)} {result : Except (Halt Error) Unit}
    (h : Posts start capacity calls d) (hrelayed : Relayed start calls d)
    (hw : d.finish turns = (result, d')) :
    ∃ more, Rounds start capacity d.session.destination.free calls more d'.session.codec
        d.writer.calls d'.writer.calls
      ∧ ∀ e, result = .error (.failed e) → FromCall (calls ++ more) d'.writer.calls e
        ∨ ∃ calls', Steps start calls' d'.session.codec
          ∧ Refuses calls' (takenBy calls) d'.session.codec e := by
  have hensures : Ensures (do
        settle turns
        onSession fun s => (s.endOfInput, s)
        flushWriter
        modify fun d => { d with session := d.session.close } : Work κ (Observed ω) Unit) d
      (fun _ d' => ∃ more, Rounds start capacity d.session.destination.free calls more
        d'.session.codec d.writer.calls d'.writer.calls)
      (fun x d' => ∃ more, Rounds start capacity d.session.destination.free calls more
          d'.session.codec d.writer.calls d'.writer.calls
        ∧ ∀ e, x = .failed e → FromCall (calls ++ more) d'.writer.calls e
          ∨ ∃ calls', Steps start calls' d'.session.codec
            ∧ Refuses calls' (takenBy calls) d'.session.codec e) := by
    -- settling asks for all the codec has, and makes rounds of calls meanwhile
    have hsettles := (settle_goes turns h).and (settle_ensures turns hrelayed)
    refine Ensures.bind (Ensures.mono hsettles (fun _ _ hq => hq) ?_) ?_
    · rintro x d₁ ⟨⟨more, hrounds, hx⟩, -⟩
      exact ⟨more, hrounds, fun e he => Or.inl (hx e he)⟩
    rintro _ d₁ ⟨⟨more, hrounds, h₁⟩, calls₁, hrelayed₁, htaken, -, hquiescent⟩
    have hendOfInput : d₁.session.endOfInput = Codec.endOfInput d₁.session.codec := by
      rw [Session.endOfInput, h₁.active]
    refine Ensures.bind (Ensures.mono (onSession_endOfInput d₁) (fun _ _ h => h) ?_) ?_
    · rintro _ _ ⟨rfl, e, rfl, hrefused⟩
      refine ⟨more, hrounds, fun _ he => Or.inr ⟨calls₁, hrelayed₁.steps, ?_⟩⟩
      cases he
      exact ⟨htaken, hquiescent, hendOfInput.symm.trans hrefused⟩
    rintro _ d₂ ⟨rfl, -⟩
    refine Ensures.bind (Ensures.mono (flushWriter_calls d₂) (fun _ _ h => h) ?_) ?_
    · rintro _ d₃ ⟨e, rfl, hsession, hcalls⟩
      rw [hsession, hcalls]
      obtain ⟨more, hrounds, hx⟩ := hrounds.flush_failed e
      exact ⟨more, hrounds, fun _ he => Or.inl (hx _ he)⟩
    -- closing the session leaves its codec and the writer behind as they are
    rintro _ d₃ ⟨hsession, hcalls⟩
    refine ⟨more, ?_⟩
    show Rounds start capacity _ calls more d₃.session.codec _ d₃.writer.calls
    rw [hsession, hcalls]
    exact hrounds.extend (List.prefix_append _ _)
  unfold finish at hw
  dsimp only at hw
  split at hw
  · next hwork =>
    cases hw
    obtain ⟨more, hrounds⟩ := hensures.of_ok hwork
    exact ⟨more, hrounds, by simp⟩
  · next hwork =>
    cases hw
    obtain ⟨more, hrounds, hx⟩ := hensures.of_error hwork
    exact ⟨more, hrounds, fun e he => hx e (by cases he; rfl)⟩

end DecompressingWriter

end Zstandard
