import Zstandard.Adapter.Writing
import Zstandard.Proofs.Session
import Zstandard.Proofs.Work

/-!
# What a decompressing writer keeps

Between two calls, a decompressing writer holds nothing: what the codec put out has been accepted by
the writer behind (`Relayed`). A write makes calls that use nothing until one uses something
(`writeChunk_ensures`); the calls that finish the writer use nothing, and the last of them leaves
room (`settle_ensures`). Both follow from what a single turn keeps, by `writeTurns_ensures` and
`settleTurns_ensures`.
-/

namespace Zstandard

namespace DecompressingWriter

variable {κ ω : Type} [Codec κ]

/-- No call has failed, and what was put out has been accepted by the writer behind. -/
structure Relayed (start : κ) (calls : List StepCall)
    (d : DecompressingWriter κ (Observed ω)) : Prop where
  /-- The calls lead to the codec. -/
  steps : Steps start calls d.session.codec
  /-- No call has failed. -/
  succeeded : ∀ c ∈ calls, c.succeeded = true
  /-- What was put out has been accepted. -/
  delivered : acceptedBy d.writer.calls = givenBy calls
  /-- The session is drained. -/
  drained : d.session.destination.bytes = .empty
  /-- The session has room. -/
  room : 0 < d.session.destination.capacity
  /-- The session is active. -/
  active : d.session.phase = .active

/-- The calls to `calls'` keep to a source to which the calls so far keep, if `input` is what comes
next in it. -/
def KeepsTo (input : Slice) (calls calls' : List StepCall) : Prop :=
  ∀ source, Each (Feeds source) calls → takenBy calls ++ input.toList <+: source →
    Each (Feeds source) calls'

section KeepsTo

variable {input : Slice} {calls calls₁ calls₂ : List StepCall}

theorem KeepsTo.refl : KeepsTo input calls calls := fun _ hfeeds _ => hfeeds

/-- Calls that used nothing leave the same to come next. -/
theorem KeepsTo.trans (h₁ : KeepsTo input calls calls₁) (htaken : takenBy calls₁ = takenBy calls)
    (h₂ : KeepsTo input calls₁ calls₂) : KeepsTo input calls calls₂ :=
  fun source hfeeds hpre => h₂ source (h₁ source hfeeds hpre) (htaken ▸ hpre)

end KeepsTo

/-! ## Pushing -/

section Push

variable [Writer ω]

/-- **A push that succeeds** is one more call, with what it put out accepted. -/
theorem pushThrough_ensures {start : κ} {calls : List StepCall} (turns : Nat) (input : Slice)
    {d : DecompressingWriter κ (Observed ω)} (h : Relayed start calls d) :
    Ensures (pushThrough turns input) d
      (fun p d' => ∃ call : StepCall, Relayed start (calls ++ [call]) d'
        ∧ call.input = input ∧ call.taken = input.toList.take p.consumed
        ∧ KeepsTo input calls (calls ++ [call]) ∧ (p.full = false → call.LeavesRoom)
        ∧ (p.full = true → call.given ≠ []))
      (fun _ _ => True) := by
  obtain ⟨writer, ⟨codec, ⟨bytes, capacity⟩, phase⟩⟩ := d
  obtain rfl : bytes = .empty := h.drained
  obtain rfl : phase = .active := h.active
  obtain ⟨result, codec', hstep⟩ : ∃ result codec',
      Codec.step codec input (DestinationBuffer.free ⟨.empty, capacity⟩) .feed = (result, codec') :=
    ⟨_, _, rfl⟩
  refine Ensures.intro (fun p d' hw => ?_) (fun _ _ _ => trivial)
  have hfits : DestinationBuffer.Fits ⟨.empty, capacity⟩ := Nat.zero_le _
  cases result with
  | error e =>
      simp only [pushThrough, bind, EStateM.bind, onSession, Session.push_error hstep] at hw
      cases hw
  | ok s =>
      have happ : ByteArray.empty ++ s.produced = s.produced := ByteArray.empty_append
      simp only [pushThrough, bind, EStateM.bind, onSession, Session.push_ok hstep,
        Session.drain_active, DestinationBuffer.append, happ] at hw
      obtain ⟨more, hcalls, -, -, hall⟩ := writeAll_calls turns writer (.ofBytes s.produced)
      split at hw <;> cases hw
      next heq =>
      rw [heq] at hcalls hall
      dsimp only at hcalls
      refine ⟨⟨input, _, .feed, .ok s⟩, ⟨h.steps.snoc hstep, ?_, ?_, rfl, h.room, rfl⟩, rfl, rfl,
        fun source hfeeds hpre => each_snoc.mpr ⟨hfeeds, rfl, h.room, hpre⟩, fun hfull => ?_,
        fun hfull hnil => ?_⟩
      · exact succeeded_snoc h.succeeded
      · have hdelivered := h.delivered
        dsimp only at hdelivered
        rw [hcalls, acceptedBy_append, hdelivered, hall rfl, Slice.toList_ofBytes, givenBy_snoc_ok]
      · have := DestinationBuffer.isFull_append hfits (Codec.produced_le hstep)
        simp only [DestinationBuffer.append, happ] at this
        exact this.mp hfull
      · -- nothing does not fill a destination that has room
        have hzero : s.produced.size = 0 := congrArg List.length hnil
        have hfull' : (s.produced.size == capacity) = true := hfull
        have hroom : 0 < capacity := h.room
        rw [beq_iff_eq] at hfull'
        omega

section Turns

variable {input : Slice} {I Q : DecompressingWriter κ (Observed ω) → Prop}
  {J : Pushed → DecompressingWriter κ (Observed ω) → Prop}
  {E : Halt Error → DecompressingWriter κ (Observed ω) → Prop}

/-- **The turns of a write** keep an invariant: only a push that used nothing and filled the
destination is made again. -/
theorem writeTurns_ensures {R : Nat → DecompressingWriter κ (Observed ω) → Prop}
    (hturns : ∀ d, I d → E .outOfTurns d)
    (hpush : ∀ turns d, I d → Ensures (pushThrough turns input) d J E)
    (hused : ∀ p d, J p d → (p.consumed ≠ 0 ∨ input.isEmpty = true) → R p.consumed d)
    (hagain : ∀ p d, J p d → p.consumed = 0 → p.full = true → I d)
    (hstuck : ∀ p d, J p d → p.consumed = 0 → E (.failed .corruptedSource) d) :
    ∀ (turns : Nat) (d : DecompressingWriter κ (Observed ω)), I d →
      Ensures (writeChunk input turns) d R E := by
  intro turns
  induction turns with
  | zero =>
      intro d h
      exact Ensures.throw (hturns d h)
  | succ turns ih =>
      intro d h
      refine Ensures.bind (hpush turns d h) fun p d₁ h₁ => ?_
      show Ensures (if p.consumed ≠ 0 ∨ input.isEmpty = true then _ else _) d₁ R E
      split
      · next hsome => exact Ensures.pure (hused p d₁ h₁ hsome)
      · next hnothing =>
        have hzero := Decidable.not_not.mp (not_or.mp hnothing).1
        show Ensures (if p.full = true then _ else _) d₁ R E
        split
        · next hfull => exact ih d₁ (hagain p d₁ h₁ hzero hfull)
        · exact Ensures.throw (hstuck p d₁ h₁ hzero)

/-- **The turns of settling** keep an invariant: a push that filled the destination is made
again. -/
theorem settleTurns_ensures (hturns : ∀ d, I d → E .outOfTurns d)
    (hpush : ∀ turns d, I d → Ensures (pushThrough turns .empty) d J E)
    (hagain : ∀ p d, J p d → p.full = true → I d) (hroom : ∀ p d, J p d → p.full = false → Q d) :
    ∀ (turns : Nat) (d : DecompressingWriter κ (Observed ω)), I d →
      Ensures (settle turns) d (fun _ => Q) E := by
  intro turns
  induction turns with
  | zero =>
      intro d h
      exact Ensures.throw (hturns d h)
  | succ turns ih =>
      intro d h
      refine Ensures.bind (hpush turns d h) fun p d₁ h₁ => ?_
      show Ensures (if p.full = true then _ else _) d₁ (fun _ => Q) E
      split
      · next hfull => exact ih d₁ (hagain p d₁ h₁ hfull)
      · next hfull => exact Ensures.pure (hroom p d₁ h₁ (eq_false_of_ne_true hfull))

end Turns

/-- **A write that succeeds** has used as much of its input as it tells. -/
theorem writeChunk_ensures {start : κ} {input : Slice} (turns : Nat) {calls : List StepCall}
    {d : DecompressingWriter κ (Observed ω)} (h : Relayed start calls d) :
    Ensures (writeChunk input turns) d
      (fun n d' => ∃ calls', Relayed start calls' d'
        ∧ takenBy calls' = takenBy calls ++ input.toList.take n ∧ KeepsTo input calls calls')
      (fun _ _ => True) := by
  -- every turn but the last uses nothing, so the next one is offered the same
  refine writeTurns_ensures
    (I := fun d' => ∃ calls', Relayed start calls' d' ∧ takenBy calls' = takenBy calls
      ∧ KeepsTo input calls calls')
    (J := fun p d' => ∃ calls', Relayed start calls' d'
      ∧ takenBy calls' = takenBy calls ++ input.toList.take p.consumed
      ∧ KeepsTo input calls calls')
    (fun _ _ => trivial) ?_ (fun _ _ h₁ _ => h₁) ?_ (fun _ _ _ _ => trivial) turns d
    ⟨calls, h, rfl, KeepsTo.refl⟩
  · rintro turns d₁ ⟨calls₁, h₁, htaken₁, hkeeps₁⟩
    refine (pushThrough_ensures turns input h₁).mono ?_ (fun _ _ hx => hx)
    rintro p d₂ ⟨call, h₂, -, htaken, hkeeps, -, -⟩
    refine ⟨calls₁ ++ [call], h₂, ?_, hkeeps₁.trans htaken₁ hkeeps⟩
    rw [takenBy_append, takenBy_cons, takenBy_nil, List.append_nil, htaken, htaken₁]
  · rintro p d₁ ⟨calls₁, h₁, htaken₁, hkeeps₁⟩ hzero -
    rw [hzero, List.take_zero, List.append_nil] at htaken₁
    exact ⟨calls₁, h₁, htaken₁, hkeeps₁⟩

/-- **Settling** uses nothing, and ends with a call that leaves room. -/
theorem settle_ensures {start : κ} (turns : Nat) {calls : List StepCall}
    {d : DecompressingWriter κ (Observed ω)} (h : Relayed start calls d) :
    Ensures (settle turns) d
      (fun _ d' => ∃ calls', Relayed start calls' d' ∧ takenBy calls' = takenBy calls
        ∧ KeepsTo .empty calls calls' ∧ Quiescent calls')
      (fun _ _ => True) := by
  refine settleTurns_ensures
    (I := fun d' => ∃ calls', Relayed start calls' d' ∧ takenBy calls' = takenBy calls
      ∧ KeepsTo .empty calls calls')
    (J := fun p d' => ∃ calls', Relayed start calls' d' ∧ takenBy calls' = takenBy calls
      ∧ KeepsTo .empty calls calls' ∧ (p.full = false → Quiescent calls'))
    (fun _ _ => trivial) ?_ ?_ ?_ turns d ⟨calls, h, rfl, KeepsTo.refl⟩
  · rintro turns d₁ ⟨calls₁, h₁, htaken₁, hkeeps₁⟩
    refine (pushThrough_ensures turns .empty h₁).mono ?_ (fun _ _ hx => hx)
    rintro p d₂ ⟨call, h₂, hinput, htaken, hkeeps, hroom, -⟩
    have hempty : Slice.empty.toList = [] := rfl
    rw [hempty, List.take_nil] at htaken
    refine ⟨calls₁ ++ [call], h₂, ?_, hkeeps₁.trans htaken₁ hkeeps, fun hfull => ?_⟩
    · rw [takenBy_append, takenBy_cons, takenBy_nil, List.append_nil, htaken, List.append_nil,
        htaken₁]
    · exact forall_last_snoc ⟨hroom hfull, by rw [htaken, hinput, hempty]⟩
  · rintro p d₁ ⟨calls₁, h₁, htaken₁, hkeeps₁, -⟩ -
    exact ⟨calls₁, h₁, htaken₁, hkeeps₁⟩
  · rintro p d₁ ⟨calls₁, h₁, htaken₁, hkeeps₁, hquiescent⟩ hfull
    exact ⟨calls₁, h₁, htaken₁, hkeeps₁, hquiescent hfull⟩

end Push

/-! ## Calls -/

section Calls

variable [Writer ω]

theorem write_ok {start : κ} {calls : List StepCall} {turns n : Nat} {input : Slice}
    {d d' : DecompressingWriter κ (Observed ω)} (h : Relayed start calls d)
    (hw : d.write turns input = (.ok n, d')) :
    ∃ calls', Relayed start calls' d'
      ∧ takenBy calls' = takenBy calls ++ input.toList.take n ∧ KeepsTo input calls calls' := by
  unfold write at hw
  split at hw <;> cases hw
  next hchunk => exact (writeChunk_ensures turns h).of_ok hchunk

/-- Flushing the writer behind hands it nothing. -/
theorem flush_ok {start : κ} {calls : List StepCall} {d d' : DecompressingWriter κ (Observed ω)}
    (h : Relayed start calls d) (hw : d.flush = (.ok (), d')) : Relayed start calls d' := by
  obtain ⟨writer, session⟩ := d
  obtain ⟨result, inner, hinner⟩ : ∃ result inner, Writer.flush writer.ends = (result, inner) :=
    ⟨_, _, rfl⟩
  simp only [flush, Observed.flush_of hinner, Prod.mk.injEq] at hw
  obtain ⟨-, rfl⟩ := hw
  refine { h with delivered := ?_ }
  have := h.delivered
  simpa [EndCall.accepted] using this

omit [Codec κ] in
/-- A flush of the writer behind is one call of it. -/
theorem flushWriter_calls (d : DecompressingWriter κ (Observed ω)) :
    Ensures flushWriter d
      (fun _ d' => d'.session = d.session
        ∧ d'.writer.calls = d.writer.calls ++ [.flush (.ok ())])
      (fun x d' => ∃ e, x = .failed (.writeIo e) ∧ d'.session = d.session
        ∧ d'.writer.calls = d.writer.calls ++ [.flush (.error e)]) := by
  obtain ⟨⟨ends, calls⟩, session⟩ := d
  obtain ⟨result, inner, hinner⟩ : ∃ result inner, Writer.flush ends = (result, inner) :=
    ⟨_, _, rfl⟩
  have hflush := Observed.flush_of (o := ⟨ends, calls⟩) hinner
  refine Ensures.intro (fun _ d' hw => ?_) (fun x d' hw => ?_)
  all_goals
    simp only [flushWriter, hflush] at hw
    cases result <;> cases hw
  · exact ⟨rfl, rfl⟩
  · exact ⟨_, rfl, rfl, rfl⟩

omit [Writer ω] in
/-- Asking whether the input may end here changes nothing. -/
theorem onSession_endOfInput (d : DecompressingWriter κ (Observed ω)) :
    Ensures (onSession fun s => (s.endOfInput, s)) d
      (fun _ d' => d' = d ∧ d.session.endOfInput = .ok ())
      (fun x d' => d' = d ∧ ∃ e, x = .failed e ∧ d.session.endOfInput = .error e) := by
  obtain ⟨writer, session⟩ := d
  refine Ensures.intro (fun _ d' hw => ?_) (fun x d' hw => ?_)
  all_goals
    simp only [onSession] at hw
    split at hw <;> cases hw
    next heq =>
    obtain ⟨hend, rfl⟩ := Prod.mk.inj heq
    simp [hend]

/-- A writer that was finished after `calls`, by calls that make them `calls'`. -/
structure Finished (start : κ) (calls calls' : List StepCall)
    (d : DecompressingWriter κ (Observed ω)) : Prop where
  /-- The calls lead to the codec. -/
  steps : Steps start calls' d.session.codec
  /-- No call has failed. -/
  succeeded : ∀ c ∈ calls', c.succeeded = true
  /-- Nothing was used since. -/
  taken : takenBy calls' = takenBy calls
  /-- The calls since were offered nothing. -/
  keeps : KeepsTo .empty calls calls'
  /-- The last of them left room. -/
  quiescent : Quiescent calls'
  /-- What was put out has been accepted. -/
  delivered : acceptedBy d.writer.calls = givenBy calls'
  /-- The input may end here. -/
  endOfInput : Codec.endOfInput d.session.codec = .ok ()

/-- **Finishing.** The codec has been asked for all it had, and its input may end there. -/
theorem finish_ok {start : κ} {calls : List StepCall} {turns : Nat}
    {d d' : DecompressingWriter κ (Observed ω)} (h : Relayed start calls d)
    (hw : d.finish turns = (.ok (), d')) : ∃ calls', Finished start calls calls' d' := by
  unfold finish at hw
  dsimp only at hw
  split at hw <;> cases hw
  next hwork =>
  have hend : ∀ (d : DecompressingWriter κ (Observed ω)), d.session.phase = .active →
      Ensures (onSession fun s => (s.endOfInput, s)) d
        (fun _ d' => d' = d ∧ Codec.endOfInput d.session.codec = .ok ()) (fun _ _ => True) := by
    intro d hactive
    refine Ensures.intro (fun _ d' hw => ?_) (fun _ _ _ => trivial)
    obtain ⟨writer, session⟩ := d
    dsimp only at hactive
    simp only [onSession, Session.endOfInput, hactive] at hw
    split at hw <;> cases hw
    next _ hok =>
    simp only [Prod.mk.injEq] at hok
    exact ⟨by rw [hok.2], hok.1⟩
  -- settling, then the end of the input, then a flush of the writer behind
  refine Ensures.of_ok (Q := fun _ d' => ∃ calls', Finished start calls calls' d')
    (E := fun _ _ => True) (Ensures.bind (settle_ensures turns h) ?_) hwork
  rintro _ d₁ ⟨calls', h₁, htaken, hkeeps, hquiescent⟩
  refine Ensures.bind (hend d₁ h₁.active) ?_
  rintro _ d₂ ⟨hd, hendOk⟩
  rw [hd]
  refine Ensures.intro (fun _ d₃ hw => ?_) (fun _ _ _ => trivial)
  obtain ⟨⟨ends, endCalls⟩, session⟩ := d₁
  obtain ⟨result, inner, hinner⟩ : ∃ result inner, Writer.flush ends = (result, inner) :=
    ⟨_, _, rfl⟩
  have hflush := Observed.flush_of (o := ⟨ends, endCalls⟩) hinner
  have hdelivered := h₁.delivered
  cases result with
  | error e =>
      simp only [bind, EStateM.bind, flushWriter, hflush] at hw
      cases hw
  | ok =>
      simp only [bind, EStateM.bind, flushWriter, hflush] at hw
      cases hw
      refine ⟨calls', h₁.steps, h₁.succeeded, htaken, hkeeps, hquiescent, ?_, hendOk⟩
      simpa [EndCall.accepted] using hdelivered

end Calls

/-! ## Histories -/

/-- Some writes and flushes, none of which failed, lead from `first` to a state and used `done`. -/
inductive Written [Writer ω] (first : DecompressingWriter κ ω) :
    List UInt8 → DecompressingWriter κ ω → Prop where
  | nil : Written first [] first
  | write {done : List UInt8} {d d' : DecompressingWriter κ ω} {turns n : Nat} {input : Slice} :
      Written first done d → d.write turns input = (.ok n, d') →
      Written first (done ++ input.toList.take n) d'
  | flush {done : List UInt8} {d d' : DecompressingWriter κ ω} :
      Written first done d → d.flush = (.ok (), d') → Written first done d'

/-- What was written has been used, and what came of it accepted. -/
theorem Written.relayed [Writer ω] {start : κ} {done : List UInt8}
    {first d : DecompressingWriter κ (Observed ω)} (h : Written first done d)
    (hfirst : Relayed start [] first) : ∃ calls, Relayed start calls d ∧ takenBy calls = done := by
  induction h with
  | nil => exact ⟨[], hfirst, rfl⟩
  | write _ hw ih =>
      obtain ⟨calls, h, htaken⟩ := ih
      obtain ⟨calls', h', htaken', -⟩ := write_ok h hw
      exact ⟨calls', h', by rw [htaken', htaken]⟩
  | flush _ hw ih =>
      obtain ⟨calls, h, htaken⟩ := ih
      exact ⟨calls, flush_ok h hw, htaken⟩

/-- A new writer with room in its destination has relayed nothing. -/
theorem relayed_new (codec : κ) (writer : ω) {destinationLength : Nat}
    (hroom : 0 < destinationLength) :
    Relayed codec [] (⟨.new writer, ⟨codec, ⟨.empty, destinationLength⟩, .active⟩⟩ :
      DecompressingWriter κ (Observed ω)) :=
  ⟨.nil, by simp, rfl, rfl, hroom, rfl⟩

end DecompressingWriter

end Zstandard
