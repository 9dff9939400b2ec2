import Zstandard.Adapter.Writing
import Zstandard.Proofs.Protocol
import Zstandard.Proofs.Work

/-!
# What a compressing writer keeps

The session of a compressing writer keeps to the protocol whatever fails, and between two calls it
is open with room in its destination, or shut: `Ready` and `Settled` say so. As long as nothing has
failed, the writer behind has accepted all that the codec put out and the session does not hold
(`Clean`). Each operation is followed for both at once.

An invariant of the loops of a writer is kept by single turns: `drainWhile_ensures` and
`writeTurns_ensures` take it from one turn to all.
-/

namespace Zstandard

namespace CompressingWriter

variable {κ ω : Type} [Codec κ]

/-- The session may go on: it is open and has room. -/
structure Ready (start : κ) (calls : List StepCall) (s : Session κ) : Prop
    extends s.Open start calls where
  /-- The destination is not full. -/
  room : s.destination.isFull = false

/-- The session is open with room, or shut. -/
def Settled (start : κ) (s : Session κ) : Prop :=
  ∃ calls, Ready start calls s ∨ s.Shut start calls

/-- No call has failed, and what was put out has been accepted or is in the session. -/
structure Clean (calls : List StepCall) (c : CompressingWriter κ (Observed ω)) : Prop where
  /-- No call has failed. -/
  succeeded : ∀ call ∈ calls, call.succeeded = true
  /-- What was put out has been accepted, or is in the session. -/
  output : givenBy calls
    = acceptedBy c.writer.calls ++ c.session.destination.bytes.data.toList

/-! ## Single moves -/

/-- What a push does to a session with room. -/
theorem push_ensures {start : κ} {calls : List StepCall} (input : Slice)
    {c : CompressingWriter κ (Observed ω)} (h : Ready start calls c.session)
    (hunfinished : Unfinished calls) :
    Ensures (onSession (Session.push input)) c
      (fun p c' => ∃ s, Codec.step c.session.codec input c.session.destination.free .feed
            = (.ok s, c'.session.codec) ∧ p.consumed = s.consumed
        ∧ p.full = c'.session.destination.isFull
        ∧ c'.session.destination = c.session.destination.append s.produced
        ∧ c'.writer = c.writer
        ∧ c'.session.Open start (calls ++ [⟨input, c.session.destination.free, .feed, .ok s⟩]))
      (fun _ c' => ∃ e, Ready start
        (calls ++ [⟨input, c.session.destination.free, .feed, .error e⟩]) c'.session
        ∧ Unfinished (calls ++ [⟨input, c.session.destination.free, .feed, .error e⟩])) := by
  obtain ⟨writer, ⟨codec, destination, phase⟩⟩ := c
  obtain rfl : phase = .active := h.active
  obtain ⟨result, codec', hstep⟩ : ∃ result codec',
      Codec.step codec input destination.free .feed = (result, codec') := ⟨_, _, rfl⟩
  have hcall := h.may_feed hunfinished h.room input result
  refine Ensures.intro (fun p c' hw => ?_) (fun x c' hw => ?_)
  · cases result with
    | error e => simp only [onSession, Session.push_error hstep] at hw; cases hw
    | ok s =>
        simp only [onSession, Session.push_ok hstep] at hw
        cases hw
        exact ⟨s, hstep, rfl, rfl, rfl, rfl, h.stepped hstep hcall fun hd => by cases hd⟩
  · cases result with
    | ok s => simp only [onSession, Session.push_ok hstep] at hw; cases hw
    | error e =>
        simp only [onSession, Session.push_error hstep] at hw
        cases hw
        exact ⟨e, ⟨h.failed hstep hcall, h.room⟩, hunfinished.snoc fun hd => by cases hd⟩

/-- What a request to flush does to a session with room. -/
theorem flush_ensures {start : κ} {calls : List StepCall}
    {c : CompressingWriter κ (Observed ω)} (h : Ready start calls c.session)
    (hunfinished : Unfinished calls) :
    Ensures (onSession Session.flush) c
      (fun more c' => ∃ s, Codec.step c.session.codec .empty c.session.destination.free .flush
            = (.ok s, c'.session.codec) ∧ more = (s.completion == .pending)
        ∧ c'.session.destination = c.session.destination.append s.produced
        ∧ c'.writer = c.writer
        ∧ c'.session.Open start (calls ++ [⟨.empty, c.session.destination.free, .flush, .ok s⟩]))
      (fun _ c' => ∃ e, Ready start
        (calls ++ [⟨.empty, c.session.destination.free, .flush, .error e⟩]) c'.session
        ∧ Unfinished (calls ++ [⟨.empty, c.session.destination.free, .flush, .error e⟩])) := by
  obtain ⟨writer, ⟨codec, destination, phase⟩⟩ := c
  obtain rfl : phase = .active := h.active
  obtain ⟨result, codec', hstep⟩ : ∃ result codec',
      Codec.step codec .empty destination.free .flush = (result, codec') := ⟨_, _, rfl⟩
  have hcall := h.may_flush hunfinished h.room result
  refine Ensures.intro (fun more c' hw => ?_) (fun x c' hw => ?_)
  · cases result with
    | error e => simp only [onSession, Session.flush_error hstep] at hw; cases hw
    | ok s =>
        simp only [onSession, Session.flush_ok hstep] at hw
        cases hw
        exact ⟨s, hstep, rfl, rfl, rfl, h.stepped hstep hcall fun hd => by cases hd⟩
  · cases result with
    | ok s => simp only [onSession, Session.flush_ok hstep] at hw; cases hw
    | error e =>
        simp only [onSession, Session.flush_error hstep] at hw
        cases hw
        exact ⟨e, ⟨h.failed hstep hcall, h.room⟩, hunfinished.snoc fun hd => by cases hd⟩

/-- What a request to finish does to a session with room. -/
theorem finish_ensures {start : κ} {calls : List StepCall}
    {c : CompressingWriter κ (Observed ω)} (h : Ready start calls c.session) :
    Ensures (onSession Session.finish) c
      (fun more c' => ∃ s, Codec.step c.session.codec .empty c.session.destination.free .finish
            = (.ok s, c'.session.codec) ∧ more = (s.completion == .pending)
        ∧ c'.session.destination = c.session.destination.append s.produced
        ∧ c'.writer = c.writer
        ∧ (more = true → c'.session.Open start
            (calls ++ [⟨.empty, c.session.destination.free, .finish, .ok s⟩]))
        ∧ (more = false → c'.session.Shut start
            (calls ++ [⟨.empty, c.session.destination.free, .finish, .ok s⟩])))
      (fun _ c' => ∃ e, Ready start
        (calls ++ [⟨.empty, c.session.destination.free, .finish, .error e⟩]) c'.session) := by
  obtain ⟨writer, ⟨codec, destination, phase⟩⟩ := c
  obtain rfl : phase = .active := h.active
  obtain ⟨result, codec', hstep⟩ : ∃ result codec',
      Codec.step codec .empty destination.free .finish = (result, codec') := ⟨_, _, rfl⟩
  have hcall := h.may_finish h.room result
  refine Ensures.intro (fun more c' hw => ?_) (fun x c' hw => ?_)
  · cases result with
    | error e => simp only [onSession, Session.finish_error hstep] at hw; cases hw
    | ok s =>
        cases hs : s.completion with
        | pending =>
            simp only [onSession, Session.finish_pending hstep hs] at hw
            cases hw
            exact ⟨s, hstep, by rw [hs]; rfl, rfl, rfl,
              fun _ => h.stepped hstep hcall fun _ => hs, fun hmore => by cases hmore⟩
        | done =>
            simp only [onSession, Session.finish_done hstep hs] at hw
            cases hw
            exact ⟨s, hstep, by rw [hs]; rfl, rfl, rfl, (fun hmore => by cases hmore),
              fun _ => h.shut hstep hcall hs⟩
  · cases result with
    | ok s =>
        cases hs : s.completion with
        | pending => simp only [onSession, Session.finish_pending hstep hs] at hw; cases hw
        | done => simp only [onSession, Session.finish_done hstep hs] at hw; cases hw
    | error e =>
        simp only [onSession, Session.finish_error hstep] at hw
        cases hw
        exact ⟨e, h.failed hstep hcall, h.room⟩

section Drain

variable [Writer ω]

omit [Codec κ] in
/-- A drain empties the session, whatever the writer behind does. If it succeeds, the writer has
accepted what the session held. -/
theorem drain_ensures (turns : Nat) {c : CompressingWriter κ (Observed ω)}
    (hopen : c.session.phase ≠ .closed) :
    Ensures (drain turns) c
      (fun n c' => c'.session = { c.session with destination := c.session.destination.rewind }
        ∧ n = c.session.destination.bytes.size
        ∧ acceptedBy c'.writer.calls
          = acceptedBy c.writer.calls ++ c.session.destination.bytes.data.toList)
      (fun _ c' =>
        c'.session = { c.session with destination := c.session.destination.rewind }) := by
  obtain ⟨writer, ⟨codec, destination, phase⟩⟩ := c
  have hdrain := Session.drain_of_ne_closed codec destination hopen
  obtain ⟨more, hcalls, -, -, hall⟩ := writeAll_calls turns writer (.ofBytes destination.bytes)
  refine Ensures.intro (fun n c' hw => ?_) (fun x c' hw => ?_)
  · simp only [drain, bind, EStateM.bind, onSession, hdrain, deliver] at hw
    split at hw
    · next heq =>
      split at heq <;> cases heq
      next hwrite =>
      cases hw
      rw [hwrite] at hcalls hall
      refine ⟨rfl, rfl, ?_⟩
      rw [show acceptedBy _ = _ from congrArg acceptedBy hcalls, acceptedBy_append, hall rfl,
        Slice.toList_ofBytes]
    · cases hw
  · simp only [drain, bind, EStateM.bind, onSession, hdrain, deliver] at hw
    split at hw
    · cases hw
    · next heq =>
      split at heq <;> cases heq
      cases hw
      rfl

omit [Codec κ] in
/-- A flush of the writer behind is one call of it. -/
theorem flushWriter_calls (c : CompressingWriter κ (Observed ω)) :
    Ensures flushWriter c
      (fun _ c' => c'.session = c.session
        ∧ c'.writer.calls = c.writer.calls ++ [.flush (.ok ())])
      (fun x c' => ∃ e, x = .failed (.writeIo e) ∧ c'.session = c.session
        ∧ c'.writer.calls = c.writer.calls ++ [.flush (.error e)]) := by
  obtain ⟨⟨ends, calls⟩, session⟩ := c
  obtain ⟨result, inner, hinner⟩ : ∃ result inner, Writer.flush ends = (result, inner) :=
    ⟨_, _, rfl⟩
  have hflush := Observed.flush_of (o := ⟨ends, calls⟩) hinner
  refine Ensures.intro (fun _ c' hw => ?_) (fun x c' hw => ?_)
  all_goals
    simp only [flushWriter, hflush] at hw
    cases result <;> cases hw
  · exact ⟨rfl, rfl⟩
  · exact ⟨_, rfl, rfl, rfl⟩

omit [Codec κ] in
/-- A flush of the writer behind hands it nothing. -/
theorem flushWriter_ensures (c : CompressingWriter κ (Observed ω)) :
    Ensures flushWriter c
      (fun _ c' => c'.session = c.session
        ∧ acceptedBy c'.writer.calls = acceptedBy c.writer.calls)
      (fun _ c' => c'.session = c.session) := by
  refine (flushWriter_calls c).mono ?_ ?_
  · rintro _ c' ⟨hsession, hcalls⟩
    exact ⟨hsession, by rw [hcalls]; simp [EndCall.accepted]⟩
  · rintro x c' ⟨e, -, hsession, -⟩
    exact hsession

omit [Codec κ] in
/-- **A loop of requests**, each followed by a drain, keeps an invariant of its turns. -/
theorem drainWhile_ensures {request : Session κ → Except Error Bool × Session κ}
    {I Q : CompressingWriter κ (Observed ω) → Prop}
    {J : Bool → CompressingWriter κ (Observed ω) → Prop}
    {E : Halt Error → CompressingWriter κ (Observed ω) → Prop}
    (hturns : ∀ c, I c → E .outOfTurns c)
    (hrequest : ∀ c, I c → Ensures (onSession request) c J E)
    (hdrain : ∀ turns more c, J more c →
      Ensures (drain turns) c (fun _ c' => if more then I c' else Q c') E) :
    ∀ (turns : Nat) (c : CompressingWriter κ (Observed ω)), I c →
      Ensures (drainWhile request turns) c (fun _ => Q) E := by
  -- the writer is general in the induction: each turn leaves another one
  intro turns
  induction turns with
  | zero =>
      intro c h
      exact Ensures.throw (hturns c h)
  | succ turns ih =>
      intro c h
      refine Ensures.bind (hrequest c h) ?_
      intro more c₁ h₁
      refine Ensures.bind (hdrain turns more c₁ h₁) ?_
      intro _ c₂ h₂
      cases more with
      | true => exact ih c₂ h₂
      | false => exact Ensures.pure h₂

/-- **The turns of a write** keep an invariant: a push comes first, a full destination is drained
behind it, and only a push that used nothing and filled the destination is made again. -/
theorem writeTurns_ensures {input : Slice} {I : CompressingWriter κ (Observed ω) → Prop}
    {J R : Pushed → CompressingWriter κ (Observed ω) → Prop}
    {Q : Nat → CompressingWriter κ (Observed ω) → Prop}
    {E : Halt Error → CompressingWriter κ (Observed ω) → Prop}
    (hturns : ∀ c, I c → E .outOfTurns c)
    (hpush : ∀ c, I c → Ensures (onSession (Session.push input)) c J E)
    (hdrain : ∀ turns p c, J p c → p.full = true → Ensures (drain turns) c
      (fun n c' => (n = 0 → E (.failed .notEnoughDestination) c') ∧ (n ≠ 0 → R p c')) E)
    (hroom : ∀ p c, J p c → p.full = false → R p c)
    (hused : ∀ p c, R p c → (p.consumed ≠ 0 ∨ input.isEmpty = true) → Q p.consumed c)
    (hagain : ∀ p c, R p c → p.consumed = 0 → p.full = true → I c)
    (hstuck : ∀ p c, R p c → p.consumed = 0 → input.isEmpty = false → p.full = false →
      E (.failed .notEnoughDestination) c) :
    ∀ (turns : Nat) (c : CompressingWriter κ (Observed ω)), I c →
      Ensures (writeChunk input turns) c Q E := by
  intro turns
  induction turns with
  | zero =>
      intro c h
      exact Ensures.throw (hturns c h)
  | succ turns ih =>
      intro c h
      refine Ensures.bind (hpush c h) fun p c₁ h₁ => ?_
      -- what follows when there is room again
      have hrest : ∀ c₂, R p c₂ →
          Ensures (if p.consumed ≠ 0 ∨ input.isEmpty = true then pure p.consumed
            else if p.full = true then writeChunk input turns
            else throw (.failed .notEnoughDestination)) c₂ Q E := by
        intro c₂ h₂
        split
        · next hsome => exact Ensures.pure (hused p c₂ h₂ hsome)
        · next hnothing =>
          obtain ⟨hzero, hempty⟩ := not_or.mp hnothing
          have hzero := Decidable.not_not.mp hzero
          split
          · next hfull => exact ih c₂ (hagain p c₂ h₂ hzero hfull)
          · next hfull =>
            exact Ensures.throw
              (hstuck p c₂ h₂ hzero (eq_false_of_ne_true hempty) (eq_false_of_ne_true hfull))
      show Ensures (if p.full = true then _ else _) c₁ Q E
      -- a full destination is drained before anything is decided, whatever was consumed
      cases hfull : p.full with
      | true =>
          rw [hfull] at hrest
          refine Ensures.bind (hdrain turns p c₁ h₁ hfull) fun n c₂ h₂ => ?_
          show Ensures (if n = 0 then _ else _) c₂ Q E
          split
          · next hn => exact Ensures.throw (h₂.1 hn)
          · next hn => exact hrest c₂ (h₂.2 hn)
      | false =>
          rw [hfull] at hrest
          exact hrest c₁ (hroom p c₁ h₁ hfull)

end Drain

/-! ## What stays clean -/

section Clean

variable {calls : List StepCall} {c c' : CompressingWriter κ (Observed ω)} {s : Step}
  {input : Slice} {room : Nat} {directive : Directive}

omit [Codec κ] in
/-- A step that succeeds adds to what the session holds. -/
theorem Clean.stepped (h : Clean calls c) (hwriter : c'.writer = c.writer)
    (hdest : c'.session.destination = c.session.destination.append s.produced) :
    Clean (calls ++ [⟨input, room, directive, .ok s⟩]) c' where
  succeeded := succeeded_snoc h.succeeded
  output := by
    rw [givenBy_snoc_ok, h.output, hwriter, hdest, DestinationBuffer.toList_append,
      List.append_assoc]

omit [Codec κ] in
/-- A drain moves what the session holds to the writer behind. -/
theorem Clean.drained (h : Clean calls c)
    (hsession : c'.session = { c.session with destination := c.session.destination.rewind })
    (haccepted : acceptedBy c'.writer.calls
      = acceptedBy c.writer.calls ++ c.session.destination.bytes.data.toList) :
    Clean calls c' where
  succeeded := h.succeeded
  output := by
    rw [h.output, haccepted, hsession]
    exact (List.append_nil _).symm

omit [Codec κ] in
/-- A flush of the writer behind moves nothing. -/
theorem Clean.flushed (h : Clean calls c) (hsession : c'.session = c.session)
    (haccepted : acceptedBy c'.writer.calls = acceptedBy c.writer.calls) : Clean calls c' where
  succeeded := h.succeeded
  output := by
    rw [hsession, haccepted]
    exact h.output

end Clean

/-- A session that was drained is ready, if it was open. -/
theorem ready_of_drained {start : κ} {calls : List StepCall}
    {c c' : CompressingWriter κ (Observed ω)} (h : c.session.Open start calls)
    (hsession : c'.session = { c.session with destination := c.session.destination.rewind }) :
    Ready start calls c'.session := by
  obtain ⟨hopen, hroom⟩ := h.drained
  rw [hsession]
  exact ⟨hopen, hroom⟩

/-! ## Operations -/

section Operations

variable [Writer ω] {start : κ}

/-- **Writing** pushes the input until some of it is used. -/
theorem writeChunk_ensures (input : Slice) (turns : Nat) {calls : List StepCall}
    {c : CompressingWriter κ (Observed ω)} (h : Ready start calls c.session)
    (hunfinished : Unfinished calls) :
    Ensures (writeChunk input turns) c
      (fun n c' => ∃ calls', Ready start calls' c'.session ∧ Unfinished calls'
        ∧ takenBy calls' = takenBy calls ++ input.toList.take n
        ∧ (Clean calls c → Clean calls' c'))
      (fun _ c' => ∃ calls', Ready start calls' c'.session ∧ Unfinished calls') := by
  refine writeTurns_ensures
    (I := fun c' => ∃ calls', Ready start calls' c'.session ∧ Unfinished calls'
      ∧ takenBy calls' = takenBy calls ∧ (Clean calls c → Clean calls' c'))
    (J := fun p c' => ∃ calls', c'.session.Open start calls' ∧ Unfinished calls'
      ∧ takenBy calls' = takenBy calls ++ input.toList.take p.consumed
      ∧ (Clean calls c → Clean calls' c') ∧ p.full = c'.session.destination.isFull)
    (R := fun p c' => ∃ calls', Ready start calls' c'.session ∧ Unfinished calls'
      ∧ takenBy calls' = takenBy calls ++ input.toList.take p.consumed
      ∧ (Clean calls c → Clean calls' c'))
    ?_ ?_ ?_ ?_ (fun _ _ h₁ _ => h₁) ?_ ?_ turns c ⟨calls, h, hunfinished, rfl, id⟩
  · rintro c₁ ⟨calls₁, h₁, hunfinished₁, -⟩
    exact ⟨calls₁, h₁, hunfinished₁⟩
  · rintro c₁ ⟨calls₁, h₁, hunfinished₁, htaken, hclean⟩
    refine (push_ensures input h₁ hunfinished₁).mono ?_ ?_
    · rintro p c₂ ⟨s, -, hconsumed, hfull, hdest, hwriter, hopen⟩
      exact ⟨_, hopen, hunfinished₁.snoc (fun hd => by cases hd),
        by rw [takenBy_snoc_ok, hconsumed, htaken],
        fun hc => (hclean hc).stepped hwriter hdest, hfull⟩
    · rintro _ c₂ ⟨e, h₂, hunfinished₂⟩
      exact ⟨_, h₂, hunfinished₂⟩
  · rintro turns p c₁ ⟨calls₁, hopen, hunfinished₁, htaken, hclean, -⟩ -
    refine (drain_ensures turns hopen.ne_closed).mono ?_ ?_
    · rintro n c₂ ⟨hsession, -, haccepted⟩
      have h₂ := ready_of_drained hopen hsession
      exact ⟨fun _ => ⟨calls₁, h₂, hunfinished₁⟩, fun _ => ⟨calls₁, h₂, hunfinished₁, htaken,
        fun hc => (hclean hc).drained hsession haccepted⟩⟩
    · intro _ c₂ hsession
      exact ⟨calls₁, ready_of_drained hopen hsession, hunfinished₁⟩
  · rintro p c₁ ⟨calls₁, hopen, hunfinished₁, htaken, hclean, hfull⟩ hroom
    exact ⟨calls₁, ⟨hopen, hfull ▸ hroom⟩, hunfinished₁, htaken, hclean⟩
  · -- a push that used nothing has left as much to be taken
    rintro p c₁ ⟨calls₁, h₁, hunfinished₁, htaken, hclean⟩ hzero -
    rw [hzero, List.take_zero, List.append_nil] at htaken
    exact ⟨calls₁, h₁, hunfinished₁, htaken, hclean⟩
  · rintro p c₁ ⟨calls₁, h₁, hunfinished₁, -⟩ - - -
    exact ⟨calls₁, h₁, hunfinished₁⟩

/-- **Flushing** uses nothing and leaves the session ready. -/
theorem flushFrame_ensures (turns : Nat) {calls : List StepCall}
    {c : CompressingWriter κ (Observed ω)} (h : Ready start calls c.session)
    (hunfinished : Unfinished calls) :
    Ensures (flushFrame turns) c
      (fun _ c' => ∃ calls', Ready start calls' c'.session ∧ Unfinished calls'
        ∧ takenBy calls' = takenBy calls ∧ (Clean calls c → Clean calls' c'))
      (fun _ c' => ∃ calls', Ready start calls' c'.session ∧ Unfinished calls') := by
  refine Ensures.bind (R := fun _ c' => ∃ calls', Ready start calls' c'.session
    ∧ Unfinished calls' ∧ takenBy calls' = takenBy calls ∧ (Clean calls c → Clean calls' c')) ?_ ?_
  · refine drainWhile_ensures
      (I := fun c' => ∃ calls', Ready start calls' c'.session ∧ Unfinished calls'
        ∧ takenBy calls' = takenBy calls ∧ (Clean calls c → Clean calls' c'))
      (J := fun _ c' => ∃ calls', c'.session.Open start calls' ∧ Unfinished calls'
        ∧ takenBy calls' = takenBy calls ∧ (Clean calls c → Clean calls' c'))
      ?_ ?_ ?_ turns c ⟨calls, h, hunfinished, rfl, id⟩
    · rintro c₁ ⟨calls₁, h₁, hunfinished₁, -⟩
      exact ⟨calls₁, h₁, hunfinished₁⟩
    · rintro c₁ ⟨calls₁, h₁, hunfinished₁, htaken, hclean⟩
      refine (flush_ensures h₁ hunfinished₁).mono ?_ ?_
      · rintro more c₂ ⟨s, -, -, hdest, hwriter, hopen⟩
        exact ⟨calls₁ ++ [⟨.empty, c₁.session.destination.free, .flush, .ok s⟩], hopen,
          hunfinished₁.snoc (fun hd => by cases hd), (takenBy_snoc_of_size rfl).trans htaken,
          fun hc => (hclean hc).stepped hwriter hdest⟩
      · rintro _ c₂ ⟨e, h₂, hunfinished₂⟩
        exact ⟨_, h₂, hunfinished₂⟩
    · rintro turns more c₁ ⟨calls₁, hopen, hunfinished₁, htaken, hclean⟩
      refine (drain_ensures turns hopen.ne_closed).mono ?_ ?_
      · rintro n c₂ ⟨hsession, -, haccepted⟩
        rw [ite_self]
        exact ⟨calls₁, ready_of_drained hopen hsession, hunfinished₁, htaken,
          fun hc => (hclean hc).drained hsession haccepted⟩
      · intro _ c₂ hsession
        exact ⟨calls₁, ready_of_drained hopen hsession, hunfinished₁⟩
  · rintro _ c₁ ⟨calls₁, h₁, hunfinished₁, htaken, hclean⟩
    refine (flushWriter_ensures c₁).mono ?_ ?_
    · rintro _ c₂ ⟨hsession, haccepted⟩
      exact ⟨calls₁, hsession ▸ h₁, hunfinished₁, htaken,
        fun hc => (hclean hc).flushed hsession haccepted⟩
    · intro _ c₂ hsession
      exact ⟨calls₁, hsession ▸ h₁, hunfinished₁⟩

/-- The requests to finish use nothing. The last of them shuts the session, and the drain behind it
leaves nothing in it. -/
theorem drainFinish_ensures (turns : Nat) {calls : List StepCall}
    {c : CompressingWriter κ (Observed ω)} (h : Ready start calls c.session) :
    Ensures (drainWhile Session.finish turns) c
      (fun _ c' => ∃ calls', c'.session.Shut start calls' ∧ takenBy calls' = takenBy calls
        ∧ (Clean calls c → Clean calls' c' ∧ c'.session.destination.bytes = .empty))
      (fun _ c' => Settled start c'.session) := by
  -- the request decides between open and shut; the drain that follows it changes neither
  refine drainWhile_ensures
    (I := fun c' => ∃ calls', Ready start calls' c'.session ∧ takenBy calls' = takenBy calls
      ∧ (Clean calls c → Clean calls' c'))
    (J := fun more c' => ∃ calls', (if more then c'.session.Open start calls'
        else c'.session.Shut start calls')
      ∧ takenBy calls' = takenBy calls ∧ (Clean calls c → Clean calls' c'))
    ?_ ?_ ?_ turns c ⟨calls, h, rfl, id⟩
  · rintro c₁ ⟨calls₁, h₁, -⟩
    exact ⟨calls₁, Or.inl h₁⟩
  · rintro c₁ ⟨calls₁, h₁, htaken, hclean⟩
    refine (finish_ensures h₁).mono ?_ ?_
    · rintro more c₂ ⟨s, -, -, hdest, hwriter, hopen, hshut⟩
      refine ⟨calls₁ ++ [⟨.empty, c₁.session.destination.free, .finish, .ok s⟩], ?_,
        (takenBy_snoc_of_size rfl).trans htaken, fun hc => (hclean hc).stepped hwriter hdest⟩
      cases more with
      | true => exact hopen rfl
      | false => exact hshut rfl
    · rintro _ c₂ ⟨e, h₂⟩
      exact ⟨_, Or.inl h₂⟩
  · rintro turns more c₁ ⟨calls₁, h₁, htaken, hclean⟩
    cases more with
    | true =>
        have hopen : c₁.session.Open start calls₁ := h₁
        refine (drain_ensures turns hopen.ne_closed).mono ?_ ?_
        · rintro n c₂ ⟨hsession, -, haccepted⟩
          exact ⟨calls₁, ready_of_drained hopen hsession, htaken,
            fun hc => (hclean hc).drained hsession haccepted⟩
        · intro _ c₂ hsession
          exact ⟨calls₁, Or.inl (ready_of_drained hopen hsession)⟩
    | false =>
        have hshut : c₁.session.Shut start calls₁ := h₁
        refine (drain_ensures turns hshut.ne_closed).mono ?_ ?_
        · rintro n c₂ ⟨hsession, -, haccepted⟩
          exact ⟨calls₁, hsession ▸ hshut.drained, htaken,
            fun hc => ⟨(hclean hc).drained hsession haccepted, by rw [hsession]; rfl⟩⟩
        · intro _ c₂ hsession
          exact ⟨calls₁, Or.inr (hsession ▸ hshut.drained)⟩

/-- **Finishing** uses nothing and shuts the session. Whatever fails, the session stays settled. -/
theorem finishFrame_ensures (turns : Nat) {calls : List StepCall}
    {c : CompressingWriter κ (Observed ω)} (h : Ready start calls c.session) :
    Ensures (finishFrame turns) c
      (fun _ c' => ∃ calls', c'.session.Shut start calls' ∧ takenBy calls' = takenBy calls
        ∧ (Clean calls c → Clean calls' c' ∧ c'.session.destination.bytes = .empty))
      (fun _ c' => Settled start c'.session) := by
  refine Ensures.bind (drainFinish_ensures turns h) ?_
  rintro _ c₁ ⟨calls₁, h₁, htaken, hclean⟩
  refine (flushWriter_ensures c₁).mono ?_ ?_
  · rintro _ c₂ ⟨hsession, haccepted⟩
    refine ⟨calls₁, hsession ▸ h₁, htaken, fun hc => ?_⟩
    obtain ⟨hc₁, hempty⟩ := hclean hc
    exact ⟨hc₁.flushed hsession haccepted, hsession ▸ hempty⟩
  · intro _ c₂ hsession
    exact ⟨calls₁, Or.inr (hsession ▸ h₁)⟩

/-! ## Calls -/

/-- A write keeps the session ready, whatever comes of it. -/
theorem write_ready {calls : List StepCall} {c : CompressingWriter κ (Observed ω)}
    (h : Ready start calls c.session) (hunfinished : Unfinished calls) (turns : Nat)
    (input : Slice) :
    ∃ calls', Ready start calls' (c.write turns input).2.session ∧ Unfinished calls' := by
  have hchunk := writeChunk_ensures input turns h hunfinished
  unfold write
  cases hw : writeChunk input turns c with
  | ok n c' =>
      obtain ⟨calls', h', hunfinished', -⟩ := hchunk.of_ok hw
      exact ⟨calls', h', hunfinished'⟩
  | error x c' => exact hchunk.of_error hw

/-- A write that succeeds has used as much as it tells. -/
theorem write_ok {calls : List StepCall} {c c' : CompressingWriter κ (Observed ω)} {turns n : Nat}
    {input : Slice} (h : Ready start calls c.session) (hunfinished : Unfinished calls)
    (hw : c.write turns input = (.ok n, c')) :
    ∃ calls', Ready start calls' c'.session ∧ Unfinished calls'
      ∧ takenBy calls' = takenBy calls ++ input.toList.take n
      ∧ (Clean calls c → Clean calls' c') := by
  unfold write outcome at hw
  split at hw <;> cases hw
  next hchunk => exact (writeChunk_ensures input turns h hunfinished).of_ok hchunk

/-- A flush keeps the session ready, whatever comes of it. -/
theorem flush_ready {calls : List StepCall} {c : CompressingWriter κ (Observed ω)}
    (h : Ready start calls c.session) (hunfinished : Unfinished calls) (turns : Nat) :
    ∃ calls', Ready start calls' (c.flush turns).2.session ∧ Unfinished calls' := by
  have hframe := flushFrame_ensures turns h hunfinished
  unfold flush
  cases hw : flushFrame turns c with
  | ok _ c' =>
      obtain ⟨calls', h', hunfinished', -⟩ := hframe.of_ok hw
      exact ⟨calls', h', hunfinished'⟩
  | error x c' => exact hframe.of_error hw

/-- A flush that succeeds uses nothing. -/
theorem flush_ok {calls : List StepCall} {c c' : CompressingWriter κ (Observed ω)} {turns : Nat}
    (h : Ready start calls c.session) (hunfinished : Unfinished calls)
    (hw : c.flush turns = (.ok (), c')) :
    ∃ calls', Ready start calls' c'.session ∧ Unfinished calls'
      ∧ takenBy calls' = takenBy calls ∧ (Clean calls c → Clean calls' c') := by
  unfold flush outcome at hw
  split at hw <;> cases hw
  next hframe => exact (flushFrame_ensures turns h hunfinished).of_ok hframe

/-- Letting go of a writer closes its frame, or tries to, once. -/
theorem release_settled {c : CompressingWriter κ (Observed ω)} (h : Settled start c.session)
    (turns : Nat) : Settled start (c.release turns).session := by
  unfold release
  split
  · exact h
  · next hunfinished =>
    obtain ⟨calls, h | h⟩ := h
    · have hframe := finishFrame_ensures turns h
      split
      · next hw =>
        obtain ⟨calls', h', -⟩ := hframe.of_ok hw
        exact ⟨calls', Or.inr h'⟩
      · next hw => exact hframe.of_error hw
    · exact absurd (by rw [Session.isFinished, h.finished]; rfl) hunfinished

/-- Finishing leaves the session settled, whatever comes of it, and so does the second attempt after
a failure. -/
theorem finish_settled {calls : List StepCall} {c : CompressingWriter κ (Observed ω)}
    (h : Ready start calls c.session) (turns : Nat) :
    Settled start (c.finish turns).2.session := by
  have hframe := finishFrame_ensures turns h
  unfold finish
  cases hw : finishFrame turns c with
  | ok _ c' =>
      obtain ⟨calls', h', -⟩ := hframe.of_ok hw
      exact ⟨calls', Or.inr h'⟩
  | error x c' => exact release_settled (hframe.of_error hw) turns

/-! ## Histories -/

/-- Some writes and flushes, whatever came of them, lead from `first` to a state. -/
inductive Used (first : CompressingWriter κ ω) : CompressingWriter κ ω → Prop where
  | nil : Used first first
  | write {c : CompressingWriter κ ω} (turns : Nat) (input : Slice) :
      Used first c → Used first (c.write turns input).2
  | flush {c : CompressingWriter κ ω} (turns : Nat) :
      Used first c → Used first (c.flush turns).2

/-- Some writes and flushes, none of which failed, lead from `first` to a state and used `done`. -/
inductive Written (first : CompressingWriter κ ω) :
    List UInt8 → CompressingWriter κ ω → Prop where
  | nil : Written first [] first
  | write {done : List UInt8} {c c' : CompressingWriter κ ω} {turns n : Nat} {input : Slice} :
      Written first done c → c.write turns input = (.ok n, c') →
      Written first (done ++ input.toList.take n) c'
  | flush {done : List UInt8} {c c' : CompressingWriter κ ω} {turns : Nat} :
      Written first done c → c.flush turns = (.ok (), c') → Written first done c'

/-- However it is used, a writer stays ready. -/
theorem Used.ready {first c : CompressingWriter κ (Observed ω)} (h : Used first c)
    (hfirst : Ready start [] first.session) :
    ∃ calls, Ready start calls c.session ∧ Unfinished calls := by
  induction h with
  | nil => exact ⟨[], hfirst, unfinished_nil⟩
  | write turns input _ ih =>
      obtain ⟨calls, h, hunfinished⟩ := ih
      exact write_ready h hunfinished turns input
  | flush turns _ ih =>
      obtain ⟨calls, h, hunfinished⟩ := ih
      exact flush_ready h hunfinished turns

/-- As long as no call fails, what was written has been used, and what came of it is on its way. -/
theorem Written.clean {done : List UInt8} {first c : CompressingWriter κ (Observed ω)}
    (h : Written first done c) (hfirst : Ready start [] first.session) (hclean : Clean [] first) :
    ∃ calls, Ready start calls c.session ∧ Unfinished calls ∧ takenBy calls = done
      ∧ Clean calls c := by
  induction h with
  | nil => exact ⟨[], hfirst, unfinished_nil, rfl, hclean⟩
  | write _ hw ih =>
      obtain ⟨calls, h, hunfinished, htaken, hcalls⟩ := ih
      obtain ⟨calls', h', hunfinished', htaken', hcalls'⟩ := write_ok h hunfinished hw
      exact ⟨calls', h', hunfinished', by rw [htaken', htaken], hcalls' hcalls⟩
  | flush _ hw ih =>
      obtain ⟨calls, h, hunfinished, htaken, hcalls⟩ := ih
      obtain ⟨calls', h', hunfinished', htaken', hcalls'⟩ := flush_ok h hunfinished hw
      exact ⟨calls', h', hunfinished', htaken'.trans htaken, hcalls' hcalls⟩

end Operations

/-- A new writer with room in its destination is ready, and clean. -/
theorem ready_new (codec : κ) {destinationLength : Nat} (hroom : 0 < destinationLength) :
    Ready codec [] ⟨codec, ⟨.empty, destinationLength⟩, .active⟩ :=
  ⟨Session.open_new codec hroom, beq_eq_false_iff_ne.mpr (Nat.ne_of_lt hroom)⟩

omit [Codec κ] in
theorem clean_new (codec : κ) (writer : ω) (destinationLength : Nat) :
    Clean [] (⟨.new writer, ⟨codec, ⟨.empty, destinationLength⟩, .active⟩⟩ :
      CompressingWriter κ (Observed ω)) :=
  ⟨by simp, rfl⟩

end CompressingWriter

end Zstandard
