import Zstandard.Proofs.Compression
import Zstandard.Proofs.Decompression
import Zstandard.Proofs.Failures

/-!
# What a failing writer behind costs

A writer that compresses or decompresses takes the output out of its session before the writer
behind has accepted it. A write that fails therefore costs what was not accepted of that output:
whatever is put out later follows behind the gap, and finishing may succeed all the same
(`finish_behind_a_gap`).

Nothing else is lost. What was accepted is what was put out but for some stretches that were
skipped (`Skipping`), no more of them than writes have failed, and as long as no write has failed
everything has been accepted or is in the session, whatever else has failed
(`writers_skip_what_was_refused`).
-/

namespace Zstandard

/-! ## Output with gaps -/

/-- `accepted` is `given` but for `n` stretches that were skipped. -/
inductive Skipping : Nat → List UInt8 → List UInt8 → Prop where
  | nil : Skipping 0 [] []
  | accept {n : Nat} {given accepted : List UInt8} (bytes : List UInt8) :
      Skipping n given accepted → Skipping n (given ++ bytes) (accepted ++ bytes)
  | skip {n : Nat} {given accepted : List UInt8} (bytes : List UInt8) :
      Skipping n given accepted → Skipping (n + 1) (given ++ bytes) accepted

/-- If nothing was skipped, all was accepted. -/
theorem Skipping.eq_of_zero {given accepted : List UInt8} (h : Skipping 0 given accepted) :
    given = accepted := by
  generalize hn : 0 = n at h
  induction h with
  | nil => rfl
  | accept bytes _ ih => rw [ih hn]
  | skip => cases hn

/-- The writes among some calls that failed. -/
def refusals (calls : List EndCall) : List EndCall :=
  calls.filter fun c => c.isWrite && c.error?.isSome

theorem refusals_append (a b : List EndCall) : refusals (a ++ b) = refusals a ++ refusals b := by
  simp [refusals]

/-- A write that failed is one of the refusals. -/
theorem refusals_ne_nil {calls : List EndCall} {c : EndCall} (hc : c ∈ calls)
    (hwrite : c.isWrite = true) {e : Error} (he : c.error? = some e) : refusals calls ≠ [] := by
  refine List.ne_nil_of_mem (List.mem_filter.mpr ⟨hc, ?_⟩)
  rw [hwrite, he]
  rfl

/-- What was put out was handed to a writer, but for what is still held; the writer has accepted
all of it but for some stretches, no more of them than writes have failed. -/
def Recounted (given held : List UInt8) (ends : List EndCall) : Prop :=
  ∃ handed n, given = handed ++ held ∧ Skipping n handed (acceptedBy ends)
    ∧ n ≤ (refusals ends).length

section Recounted

variable {given held : List UInt8} {ends : List EndCall}

theorem recounted_nil : Recounted [] [] [] := ⟨[], 0, rfl, .nil, Nat.le_refl 0⟩

/-- What is put out is held at first. -/
theorem Recounted.put (h : Recounted given held ends) (bytes : List UInt8) :
    Recounted (given ++ bytes) (held ++ bytes) ends := by
  obtain ⟨handed, n, rfl, hskipping, hn⟩ := h
  exact ⟨handed, n, List.append_assoc _ _ _, hskipping, hn⟩

/-- A flush of the writer neither accepts nor refuses anything. -/
theorem Recounted.flushed (h : Recounted given held ends) (result : Except IoError Unit) :
    Recounted given held (ends ++ [.flush result]) := by
  obtain ⟨handed, n, hgiven, hskipping, hn⟩ := h
  refine ⟨handed, n, hgiven, ?_, ?_⟩
  · rw [acceptedBy_append]
    simpa [EndCall.accepted] using hskipping
  · rw [refusals_append, List.length_append]
    exact Nat.le_trans hn (Nat.le_add_right _ _)

/-- **Writing out** what is held leaves nothing of it: what is not accepted is skipped. -/
theorem Recounted.written {ω : Type} [Writer ω] {bytes : ByteArray} {o o' : Observed ω}
    {turns : Nat} {result : Except (Halt IoError) Unit}
    (h : Recounted given bytes.data.toList o.calls)
    (hw : writeAll turns o (.ofBytes bytes) = (result, o')) (hturns : result ≠ .error .outOfTurns) :
    Recounted given [] o'.calls := by
  obtain ⟨handed, n, hgiven, hskipping, hn⟩ := h
  obtain ⟨more, hcalls, hwrites, hexplained, ⟨lost, hlost⟩, hall⟩ :=
    writeAll_wroteAll turns o (.ofBytes bytes)
  rw [hw] at hcalls hexplained hall
  dsimp only at hcalls
  rw [Slice.toList_ofBytes] at hlost hall
  rw [hcalls]
  have haccepted := hskipping.accept (acceptedBy more)
  rw [← acceptedBy_append] at haccepted
  cases result with
  | ok =>
      refine ⟨handed ++ acceptedBy more, n, ?_, haccepted, ?_⟩
      · rw [hgiven, hall rfl, List.append_nil]
      · rw [refusals_append, List.length_append]
        exact Nat.le_trans hn (Nat.le_add_right _ _)
  | error x =>
      cases x with
      | outOfTurns => exact absurd rfl hturns
      | failed e =>
          -- the write that failed is one more refusal
          obtain ⟨c, hc, he⟩ := Explains.exists_mem hexplained
          have hpos : 0 < (refusals more).length :=
            List.length_pos_iff.mpr (refusals_ne_nil hc (hwrites c hc) he)
          refine ⟨handed ++ acceptedBy more ++ lost, n + 1, ?_, haccepted.skip lost, ?_⟩
          · rw [hgiven, List.append_nil, List.append_assoc, hlost]
          · rw [refusals_append, List.length_append]
            omega

/-- As long as no write has failed, all was accepted or is held. -/
theorem Recounted.intact (h : Recounted given held ends) (hends : refusals ends = []) :
    given = acceptedBy ends ++ held := by
  obtain ⟨handed, n, hgiven, hskipping, hn⟩ := h
  rw [hends] at hn
  obtain rfl := Nat.le_zero.mp hn
  rw [hgiven, hskipping.eq_of_zero]

end Recounted

/-! ## Sessions -/

/-- What a session holds, and the calls of the writer behind it, account for all that its codec has
put out. -/
def Session.Accounted {κ : Type} [Codec κ] (start : κ) (s : Session κ) (ends : List EndCall) :
    Prop :=
  ∃ calls, Steps start calls s.codec
    ∧ Recounted (givenBy calls) s.destination.bytes.data.toList ends

namespace Session

variable {κ : Type} [Codec κ] {start : κ} {s : Session κ} {ends : List EndCall}

theorem accounted_new (codec : κ) (capacity : Nat) :
    Accounted codec ⟨codec, ⟨.empty, capacity⟩, .active⟩ [] :=
  ⟨[], .nil, recounted_nil⟩

/-- A step of a session is a step of its codec, or none. -/
theorem Accounted.step (h : s.Accounted start ends) (input : Slice) (directive : Directive) :
    (s.step input directive).2.Accounted start ends := by
  obtain ⟨codec, destination, phase⟩ := s
  cases phase with
  | active =>
      obtain ⟨calls, hsteps, hrecounted⟩ := h
      obtain ⟨result, codec', hstep⟩ : ∃ result codec',
          Codec.step codec input destination.free directive = (result, codec') := ⟨_, _, rfl⟩
      have hput := hrecounted.put (StepCall.given ⟨input, destination.free, directive, result⟩)
      refine ⟨calls ++ [⟨input, destination.free, directive, result⟩], ?_, ?_⟩
      · cases result <;> (simp only [Session.step, hstep]; exact hsteps.snoc hstep)
      · rw [givenBy_append, givenBy_cons, givenBy_nil, List.append_nil]
        cases result with
        | ok step =>
            simp only [Session.step, hstep, DestinationBuffer.toList_append]
            exact hput
        | error e =>
            simp only [Session.step, hstep]
            simpa [StepCall.given] using hput
  | finished => exact h
  | closed => exact h

theorem Accounted.push (h : s.Accounted start ends) (input : Slice) :
    (s.push input).2.Accounted start ends := by
  have hstep := h.step input .feed
  unfold Session.push
  split <;> (next heq => rw [heq] at hstep; exact hstep)

theorem Accounted.flush (h : s.Accounted start ends) : s.flush.2.Accounted start ends := by
  have hstep := h.step .empty .flush
  unfold Session.flush
  split <;> (next heq => rw [heq] at hstep; exact hstep)

theorem Accounted.finish (h : s.Accounted start ends) : s.finish.2.Accounted start ends := by
  have hstep := h.step .empty .finish
  unfold Session.finish
  split
  · next heq =>
    rw [heq] at hstep
    split <;> exact hstep
  · next heq =>
    rw [heq] at hstep
    exact hstep

omit [Codec κ] in
/-- A drain that fails changes nothing. -/
theorem drain_error {s' : Session κ} {e : Error} (hdrain : s.drain = (.error e, s')) : s' = s := by
  obtain ⟨codec, destination, phase⟩ := s
  cases phase <;> cases hdrain
  rfl

/-- **Draining** a session to the writer behind it leaves nothing held, whatever the writer does. -/
theorem Accounted.delivered {ω : Type} [Writer ω] {turns : Nat} {o o' : Observed ω}
    {s' : Session κ} {bytes : ByteArray} {result : Except (Halt IoError) Unit}
    (h : s.Accounted start o.calls) (hdrain : s.drain = (.ok bytes, s'))
    (hw : writeAll turns o (.ofBytes bytes) = (result, o')) (hturns : result ≠ .error .outOfTurns) :
    s'.Accounted start o'.calls := by
  obtain ⟨calls, hsteps, hrecounted⟩ := h
  obtain ⟨codec, destination, phase⟩ := s
  -- a closed session drains nothing; the others give all they hold
  cases phase <;> cases hdrain <;> exact ⟨calls, hsteps, hrecounted.written hw hturns⟩

omit [Codec κ] in
theorem bytes_of_drain {s' : Session κ} {bytes : ByteArray} (hdrain : s.drain = (.ok bytes, s')) :
    s'.destination.bytes = .empty := by
  obtain ⟨codec, destination, phase⟩ := s
  cases phase <;> cases hdrain <;> rfl

end Session

/-! ## Work that keeps the account -/

section Keeps

variable {σ α β : Type} {I : σ → Prop}

/-- Some work keeps an invariant, whatever fails, unless it runs out of turns. -/
def Keeps (I : σ → Prop) (work : EStateM (Halt Error) σ α) : Prop :=
  ∀ s, I s → Ensures work s (fun _ => I) (fun x s' => x ≠ .outOfTurns → I s')

theorem Keeps.bind {work : EStateM (Halt Error) σ α} {k : α → EStateM (Halt Error) σ β}
    (h : Keeps I work) (hk : ∀ a, Keeps I (k a)) : Keeps I (work >>= k) :=
  fun s hs => Ensures.bind (h s hs) fun a s' hs' => hk a s' hs'

end Keeps

/-! ## Compressing writers -/

namespace CompressingWriter

variable {κ ω : Type} [Codec κ]

/-- Nothing was lost but what the writer behind has refused. -/
def Accounts (start : κ) (c : CompressingWriter κ (Observed ω)) : Prop :=
  c.session.Accounted start c.writer.calls

/-- An operation of the session keeps the account if the session does. -/
theorem onSession_keeps {start : κ} {α : Type}
    {operation : Session κ → Except Error α × Session κ}
    (h : ∀ (s : Session κ) (ends : List EndCall), s.Accounted start ends →
      (operation s).2.Accounted start ends) :
    Keeps (Accounts start) (onSession operation : Work κ (Observed ω) α) := by
  intro c hc
  obtain ⟨writer, session⟩ := c
  obtain ⟨result, session', hoperation⟩ : ∃ r s, operation session = (r, s) := ⟨_, _, rfl⟩
  have hs := h session writer.calls hc
  rw [hoperation] at hs
  refine Ensures.intro (fun a c' hw => ?_) (fun x c' hw _ => ?_)
  all_goals
    simp only [onSession, hoperation] at hw
    cases result <;> cases hw
    exact hs

variable [Writer ω]

theorem flushWriter_keeps (start : κ) :
    Keeps (Accounts start) (flushWriter : Work κ (Observed ω) Unit) := by
  intro c hc
  obtain ⟨steps, hsteps, hrecounted⟩ := hc
  refine (flushWriter_calls c).mono (fun _ c' h => ?_) (fun _ c' h _ => ?_)
  · obtain ⟨hsession, hcalls⟩ := h
    unfold Accounts
    rw [hsession, hcalls]
    exact ⟨steps, hsteps, hrecounted.flushed _⟩
  · obtain ⟨e, -, hsession, hcalls⟩ := h
    unfold Accounts
    rw [hsession, hcalls]
    exact ⟨steps, hsteps, hrecounted.flushed _⟩

/-- What a drain takes out of the session is written out, or was refused. -/
theorem drain_keeps (start : κ) (turns : Nat) :
    Keeps (Accounts start) (drain turns : Work κ (Observed ω) Nat) := by
  intro c hc
  obtain ⟨writer, session⟩ := c
  obtain ⟨drained, session', hdrain⟩ : ∃ r s, session.drain = (r, s) := ⟨_, _, rfl⟩
  cases drained with
  | error e =>
      obtain rfl := Session.drain_error hdrain
      refine Ensures.intro (fun n c' hw => ?_) (fun x c' hw _ => ?_)
      all_goals simp only [drain, bind, EStateM.bind, onSession, hdrain] at hw; cases hw
      exact hc
  | ok bytes =>
      obtain ⟨result, writer', hwrite⟩ :
          ∃ result o, writeAll turns writer (.ofBytes bytes) = (result, o) := ⟨_, _, rfl⟩
      -- the session is empty before anything is written, so a failure does not bring it back
      have hdelivered := Session.Accounted.delivered hc hdrain hwrite
      refine Ensures.intro (fun n c' hw => ?_) (fun x c' hw hx => ?_)
      all_goals
        simp only [drain, bind, EStateM.bind, onSession, hdrain, deliver, hwrite] at hw
        cases result <;> cases hw
      · exact hdelivered (by simp)
      · next h => exact hdelivered fun heq => by cases heq; exact hx rfl

omit [Codec κ] in
/-- A drain that succeeds leaves nothing in the session. -/
theorem drain_empties (turns : Nat) (c : CompressingWriter κ (Observed ω)) :
    Ensures (drain turns) c (fun _ c' => c'.session.destination.bytes = .empty)
      (fun _ _ => True) := by
  obtain ⟨writer, session⟩ := c
  refine Ensures.intro (fun n c' hw => ?_) (fun _ _ _ => trivial)
  simp only [drain, bind, EStateM.bind, onSession, deliver] at hw
  split at hw
  · next heq =>
    split at heq <;> cases heq
    next hdrain =>
    split at hw
    · next heq' =>
      split at heq' <;> cases heq'
      cases hw
      exact Session.bytes_of_drain hdrain
    · cases hw
  · cases hw

section Loops

variable {start : κ} {request : Session κ → Except Error Bool × Session κ}

theorem drainWhile_keeps
    (h : ∀ (s : Session κ) (ends : List EndCall), s.Accounted start ends →
      (request s).2.Accounted start ends) (turns : Nat) :
    Keeps (Accounts start) (drainWhile request turns : Work κ (Observed ω) Unit) := by
  refine drainWhile_ensures (I := Accounts start) (J := fun _ => Accounts start)
    (fun _ _ hx => absurd rfl hx) (onSession_keeps h) ?_ turns
  intro turns more c hc
  refine (drain_keeps start turns c hc).mono (fun _ c' h' => ?_) (fun _ _ hx => hx)
  rwa [ite_self]

omit [Codec κ] in
/-- A loop of requests that succeeds leaves nothing in the session. -/
theorem drainWhile_empties (turns : Nat) (c : CompressingWriter κ (Observed ω)) :
    Ensures (drainWhile request turns) c (fun _ c' => c'.session.destination.bytes = .empty)
      (fun _ _ => True) := by
  refine drainWhile_ensures (I := fun _ => True) (J := fun _ _ => True) (fun _ _ => trivial)
    (fun _ _ => Ensures.intro (fun _ _ _ => trivial) fun _ _ _ => trivial) ?_ turns c trivial
  intro turns more c₁ _
  refine (drain_empties turns c₁).mono (fun _ c₂ hempty => ?_) fun _ _ _ => trivial
  -- the last drain is the one that counts
  cases more with
  | true => exact trivial
  | false => exact hempty

theorem writeChunk_keeps (start : κ) (input : Slice) (turns : Nat) :
    Keeps (Accounts start) (writeChunk input turns : Work κ (Observed ω) Nat) := by
  refine writeTurns_ensures (I := Accounts start) (J := fun _ => Accounts start)
    (R := fun _ => Accounts start) (fun _ _ hx => absurd rfl hx)
    (onSession_keeps fun _ _ hs => hs.push input) ?_ (fun _ _ h _ => h) (fun _ _ h _ => h)
    (fun _ _ h _ _ => h) (fun _ _ h _ _ _ _ => h) turns
  intro turns p c hc _
  exact (drain_keeps start turns c hc).mono (fun _ _ h => ⟨fun _ _ => h, fun _ => h⟩)
    fun _ _ hx => hx

theorem flushFrame_keeps (start : κ) (turns : Nat) :
    Keeps (Accounts start) (flushFrame turns : Work κ (Observed ω) Unit) :=
  (drainWhile_keeps (fun _ _ hs => hs.flush) turns).bind fun _ => flushWriter_keeps start

theorem finishFrame_keeps (start : κ) (turns : Nat) :
    Keeps (Accounts start) (finishFrame turns : Work κ (Observed ω) Unit) :=
  (drainWhile_keeps (fun _ _ hs => hs.finish) turns).bind fun _ => flushWriter_keeps start

/-- A frame that was finished leaves nothing in the session. -/
theorem finishFrame_empties (turns : Nat) (c : CompressingWriter κ (Observed ω)) :
    Ensures (finishFrame turns) c (fun _ c' => c'.session.destination.bytes = .empty)
      (fun _ _ => True) :=
  Ensures.bind (drainWhile_empties turns c) fun _ c₁ hempty =>
    (flushWriter_ensures c₁).mono (fun _ _ h => by rw [h.1]; exact hempty) fun _ _ _ => trivial

end Loops

/-- Some writes, flushes and attempts to finish, whatever came of them, lead from `first` to a
state; each of them has come to its end. Letting go of a writer is an attempt to finish, and so is
finishing it, of which there is another one if the first fails. -/
inductive Tried (first : CompressingWriter κ ω) : CompressingWriter κ ω → Prop where
  | nil : Tried first first
  | write {c c' : CompressingWriter κ ω} {turns : Nat} {input : Slice}
      {result : Except (Halt IoError) Nat} : Tried first c →
      c.write turns input = (result, c') → result ≠ .error .outOfTurns → Tried first c'
  | flush {c c' : CompressingWriter κ ω} {turns : Nat} {result : Except (Halt IoError) Unit} :
      Tried first c → c.flush turns = (result, c') → result ≠ .error .outOfTurns → Tried first c'
  | attempt {c c' : CompressingWriter κ ω} {turns : Nat} : Tried first c →
      finishFrame turns c = .ok () c' → Tried first c'
  | failure {c c' : CompressingWriter κ ω} {turns : Nat} {e : Error} : Tried first c →
      finishFrame turns c = .error (.failed e) c' → Tried first c'

omit [Codec κ] [Writer ω] in
/-- Work that comes to its end keeps an invariant. -/
theorem keeps_outcome {α : Type} {I : CompressingWriter κ ω → Prop} {work : Work κ ω α}
    (h : Keeps I work) {c c' : CompressingWriter κ ω} {result : Except (Halt IoError) α}
    (hc : I c) (hw : outcome (work c) = (result, c')) (hturns : result ≠ .error .outOfTurns) :
    I c' := by
  have hensures := h c hc
  cases hwork : work c with
  | ok a c₁ =>
      rw [hwork] at hw
      cases hw
      exact hensures.of_ok hwork
  | error x c₁ =>
      rw [hwork] at hw
      cases hw
      exact hensures.of_error hwork fun hx => hturns (by rw [hx]; rfl)

/-- **However a writer is used**, nothing was lost but what the writer behind has refused. -/
theorem Tried.accounts {start : κ} {first c : CompressingWriter κ (Observed ω)}
    (h : Tried first c) (hfirst : Accounts start first) : Accounts start c := by
  induction h with
  | nil => exact hfirst
  | write _ hw hturns ih => exact keeps_outcome (writeChunk_keeps start _ _) ih hw hturns
  | flush _ hw hturns ih => exact keeps_outcome (flushFrame_keeps start _) ih hw hturns
  | attempt _ hw ih => exact (finishFrame_keeps start _ _ ih).of_ok hw
  | failure _ hw ih => exact (finishFrame_keeps start _ _ ih).of_error hw (by simp)

end CompressingWriter

/-! ## Decompressing writers -/

namespace DecompressingWriter

variable {κ ω : Type} [Codec κ] [Writer ω] {start : κ}

/-- Nothing was lost but what the writer behind has refused. -/
def Accounts (start : κ) (d : DecompressingWriter κ (Observed ω)) : Prop :=
  d.session.Accounted start d.writer.calls

/-- What a push puts out is written out, or was refused. -/
theorem pushThrough_keeps (start : κ) (turns : Nat) (input : Slice) :
    Keeps (Accounts start) (pushThrough turns input : Work κ (Observed ω) Pushed) := by
  intro d hd
  obtain ⟨writer, session⟩ := d
  obtain ⟨pushed, session₁, hpush⟩ : ∃ r s, session.push input = (r, s) := ⟨_, _, rfl⟩
  have h₁ : session₁.Accounted start writer.calls := by
    have := Session.Accounted.push hd input
    rwa [hpush] at this
  cases pushed with
  | error e =>
      refine Ensures.intro (fun p d' hw => ?_) (fun x d' hw _ => ?_)
      all_goals simp only [pushThrough, bind, EStateM.bind, onSession, hpush] at hw; cases hw
      exact h₁
  | ok p =>
      obtain ⟨drained, session₂, hdrain⟩ : ∃ r s, session₁.drain = (r, s) := ⟨_, _, rfl⟩
      cases drained with
      | error e =>
          obtain rfl := Session.drain_error hdrain
          refine Ensures.intro (fun p d' hw => ?_) (fun x d' hw _ => ?_)
          all_goals
            simp only [pushThrough, bind, EStateM.bind, onSession, hpush, hdrain] at hw
            cases hw
          exact h₁
      | ok bytes =>
          obtain ⟨result, writer', hwrite⟩ :
              ∃ result o, writeAll turns writer (.ofBytes bytes) = (result, o) := ⟨_, _, rfl⟩
          have hdelivered := h₁.delivered hdrain hwrite
          refine Ensures.intro (fun p d' hw => ?_) (fun x d' hw hx => ?_)
          all_goals
            simp only [pushThrough, bind, EStateM.bind, onSession, hpush, hdrain, hwrite] at hw
            cases result <;> cases hw
          · exact hdelivered (by simp)
          · next h => exact hdelivered fun heq => by cases heq; exact hx rfl

theorem writeChunk_keeps (start : κ) (input : Slice) (turns : Nat) :
    Keeps (Accounts start) (writeChunk input turns : Work κ (Observed ω) Nat) :=
  writeTurns_ensures (I := Accounts start) (J := fun _ => Accounts start)
    (fun _ _ hx => absurd rfl hx) (fun turns d hd => pushThrough_keeps start turns input d hd)
    (fun _ _ h _ => h) (fun _ _ h _ _ => h) (fun _ _ h _ _ => h) turns

theorem settle_keeps (start : κ) (turns : Nat) :
    Keeps (Accounts start) (settle turns : Work κ (Observed ω) Unit) :=
  settleTurns_ensures (I := Accounts start) (J := fun _ => Accounts start)
    (fun _ _ hx => absurd rfl hx) (fun turns d hd => pushThrough_keeps start turns .empty d hd)
    (fun _ _ h _ => h) (fun _ _ h _ => h) turns

/-- A push that succeeds leaves nothing in the session. -/
theorem pushThrough_empties (turns : Nat) (input : Slice) (d : DecompressingWriter κ (Observed ω)) :
    Ensures (pushThrough turns input) d (fun _ d' => d'.session.destination.bytes = .empty)
      (fun _ _ => True) := by
  refine Ensures.bind (R := fun _ _ => True)
    (Ensures.intro (fun _ _ _ => trivial) (fun _ _ _ => trivial)) fun p d₁ _ => ?_
  refine Ensures.bind (R := fun _ d₂ => d₂.session.destination.bytes = .empty)
    (Ensures.intro (fun bytes d₂ hw => ?_) (fun _ _ _ => trivial)) fun bytes d₂ hempty => ?_
  · simp only [onSession] at hw
    split at hw <;> cases hw
    next hdrain => exact Session.bytes_of_drain hdrain
  · refine Ensures.intro (fun p d₃ hw => ?_) (fun _ _ _ => trivial)
    dsimp only at hw
    split at hw <;> cases hw
    exact hempty

/-- Settling leaves nothing in the session. -/
theorem settle_empties (turns : Nat) (d : DecompressingWriter κ (Observed ω)) :
    Ensures (settle turns) d (fun _ d' => d'.session.destination.bytes = .empty)
      (fun _ _ => True) :=
  settleTurns_ensures (I := fun _ => True)
    (J := fun _ d' => d'.session.destination.bytes = .empty) (fun _ _ => trivial)
    (fun turns d _ => pushThrough_empties turns .empty d) (fun _ _ _ _ => trivial)
    (fun _ _ h _ => h) turns d trivial

/-- A flush of the writer behind leaves the session as it is. -/
theorem flushWriter_accounts {d : DecompressingWriter κ (Observed ω)} (hd : Accounts start d) :
    Ensures flushWriter d (fun _ d' => Accounts start d' ∧ d'.session = d.session)
      (fun _ d' => Accounts start d') := by
  obtain ⟨steps, hsteps, hrecounted⟩ := hd
  refine (flushWriter_calls d).mono (fun _ d' h => ?_) (fun _ d' h => ?_)
  · obtain ⟨hsession, hcalls⟩ := h
    unfold Accounts
    rw [hsession, hcalls]
    exact ⟨⟨steps, hsteps, hrecounted.flushed _⟩, rfl⟩
  · obtain ⟨e, -, hsession, hcalls⟩ := h
    unfold Accounts
    rw [hsession, hcalls]
    exact ⟨steps, hsteps, hrecounted.flushed _⟩

/-- **Finishing** leaves nothing in the session if it succeeds. -/
theorem finish_accounts {turns : Nat} {d d' : DecompressingWriter κ (Observed ω)}
    {result : Except (Halt Error) Unit} (hd : Accounts start d)
    (hw : d.finish turns = (result, d')) (hturns : result ≠ .error .outOfTurns) :
    Accounts start d' ∧ (result = .ok () → d'.session.destination.bytes = .empty) := by
  -- settling, then the end of the input, then a flush of the writer behind, then closing
  have hensures : Ensures (do
        settle turns
        onSession fun s => (s.endOfInput, s)
        flushWriter
        modify fun d => { d with session := d.session.close } : Work κ (Observed ω) Unit) d
      (fun _ d' => Accounts start d' ∧ d'.session.destination.bytes = .empty)
      (fun x d' => x ≠ .outOfTurns → Accounts start d') := by
    refine Ensures.bind ((settle_keeps start turns d hd).and (settle_empties turns d) |>.mono
      (fun _ _ h => h) (fun _ _ h => h.1)) fun _ d₁ h₁ => ?_
    refine Ensures.bind ((onSession_endOfInput d₁).mono (fun _ _ h => h)
      (fun _ _ h _ => h.1 ▸ h₁.1)) fun _ d₂ h₂ => ?_
    obtain ⟨rfl, -⟩ := h₂
    refine Ensures.bind ((flushWriter_accounts h₁.1).mono (fun _ _ h => h) (fun _ _ h _ => h))
      fun _ d₃ h₃ => ?_
    show Accounts start d₃ ∧ d₃.session.destination.bytes = .empty
    exact ⟨h₃.1, by rw [h₃.2]; exact h₁.2⟩
  unfold finish at hw
  dsimp only at hw
  split at hw
  · next hwork =>
    cases hw
    have h := hensures.of_ok hwork
    exact ⟨h.1, fun _ => h.2⟩
  · next hwork =>
    cases hw
    exact ⟨hensures.of_error hwork fun hx => hturns (by rw [hx]), by simp⟩

/-- Some writes and flushes, whatever came of them, lead from `first` to a state; each of them has
come to its end. -/
inductive Tried (first : DecompressingWriter κ ω) : DecompressingWriter κ ω → Prop where
  | nil : Tried first first
  | write {d d' : DecompressingWriter κ ω} {turns : Nat} {input : Slice}
      {result : Except (Halt IoError) Nat} : Tried first d →
      d.write turns input = (result, d') → result ≠ .error .outOfTurns → Tried first d'
  | flush {d : DecompressingWriter κ ω} : Tried first d → Tried first d.flush.2

/-- **However a writer is used**, nothing was lost but what the writer behind has refused. -/
theorem Tried.accounts {first d : DecompressingWriter κ (Observed ω)}
    (h : Tried first d) (hfirst : Accounts start first) : Accounts start d := by
  induction h with
  | nil => exact hfirst
  | @write d d' turns input result _ hw hturns ih =>
      have hensures := writeChunk_keeps start input turns d ih
      unfold DecompressingWriter.write at hw
      split at hw <;> cases hw
      · next hwork => exact hensures.of_ok hwork
      · next hwork => exact hensures.of_error hwork fun hx => hturns (by rw [hx]; rfl)
  | @flush d _ ih =>
      obtain ⟨writer, session⟩ := d
      obtain ⟨result, ends, hw⟩ : ∃ result ends, Writer.flush writer.ends = (result, ends) :=
        ⟨_, _, rfl⟩
      obtain ⟨steps, hsteps, hrecounted⟩ := ih
      simp only [DecompressingWriter.flush, Observed.flush_of hw]
      exact ⟨steps, hsteps, hrecounted.flushed result⟩

end DecompressingWriter

/-! ## What is lost, and what is not -/

section Records

variable {κ ο : Type} [Codec κ] {o : ο} {ends : List EndCall}

theorem Session.Accounted.traced {make : ο → Except Error κ} {start : Recorded κ}
    {s : Session (Recorded κ)} (h : s.Accounted start ends) (hmake : tracing make o = .ok start) :
    Recounted (givenBy s.codec.record) s.destination.bytes.data.toList ends := by
  obtain ⟨calls, hsteps, hrecounted⟩ := h
  rw [hsteps.record_eq hmake]
  exact hrecounted

theorem Session.Accounted.recorded {make : ο → Except Error κ} {start : Framed (Recorded κ)}
    {s : Session (Framed (Recorded κ))} (h : s.Accounted start ends)
    (hmake : recording make o = .ok start) :
    Recounted (givenBy s.codec.record) s.destination.bytes.data.toList ends := by
  obtain ⟨calls, hsteps, hrecounted⟩ := h
  rw [hsteps.framed_record_eq hmake]
  exact hrecounted

end Records

/-- **Only what a writer behind refuses is lost.** For every codec and every writer behind, and
however a writer that compresses or decompresses is used: all that the codec has put out is in the
session or was handed to the writer behind, in order; it has accepted all of that but for some
stretches, no more of them than writes have failed, so that as long as no write has failed nothing
is skipped, whatever else has failed. A writer that is finished has nothing left in its session. -/
theorem writers_skip_what_was_refused {κ ω : Type} [Codec κ] [Writer ω] (memory : Memory)
    (writer : ω) (log log' : Log) :
    (∀ (make : CompressorOptions → Except Error κ) (o : CompressorOptions)
        (first c : CompressingWriter (Recorded κ) (Observed ω)),
      CompressingWriter.create memory (tracing make) o (Observed.new writer) log
        = (.ok first, log') →
      CompressingWriter.Tried first c →
      Recounted (givenBy c.session.codec.record) c.session.destination.bytes.data.toList
          c.writer.calls
        ∧ (refusals c.writer.calls = [] → givenBy c.session.codec.record
          = acceptedBy c.writer.calls ++ c.session.destination.bytes.data.toList)
        ∧ ∀ (turns : Nat) (c' : CompressingWriter (Recorded κ) (Observed ω)),
          c.finish turns = (.ok (), c') →
          Recounted (givenBy c'.session.codec.record) [] c'.writer.calls
            ∧ (refusals c'.writer.calls = [] →
              givenBy c'.session.codec.record = acceptedBy c'.writer.calls))
    ∧ ∀ (make : DecompressorOptions → Except Error κ) (o : DecompressorOptions)
        (first d : DecompressingWriter (Framed (Recorded κ)) (Observed ω)),
      DecompressingWriter.create memory (recording make) o (Observed.new writer) log
        = (.ok first, log') →
      DecompressingWriter.Tried first d →
      Recounted (givenBy d.session.codec.record) d.session.destination.bytes.data.toList
          d.writer.calls
        ∧ (refusals d.writer.calls = [] → givenBy d.session.codec.record
          = acceptedBy d.writer.calls ++ d.session.destination.bytes.data.toList)
        ∧ ∀ (turns : Nat) (d' : DecompressingWriter (Framed (Recorded κ)) (Observed ω)),
          d.finish turns = (.ok (), d') →
          Recounted (givenBy d'.session.codec.record) [] d'.writer.calls
            ∧ (refusals d'.writer.calls = [] →
              givenBy d'.session.codec.record = acceptedBy d'.writer.calls) := by
  refine ⟨fun make o first c hfirst htried => ?_, fun make o first d hfirst htried => ?_⟩
  · obtain ⟨start, hmake, rfl⟩ := CompressingWriter.create_ok hfirst
    have hc := htried.accounts (Session.accounted_new start o.destinationLength)
    have hrecounted := Session.Accounted.traced hc hmake
    refine ⟨hrecounted, hrecounted.intact, fun turns c' hfinish => ?_⟩
    unfold CompressingWriter.finish at hfinish
    split at hfinish <;> cases hfinish
    next hw =>
    have hempty := (CompressingWriter.finishFrame_empties turns c).of_ok hw
    have hfinished : Recounted (givenBy c'.session.codec.record)
        c'.session.destination.bytes.data.toList c'.writer.calls :=
      Session.Accounted.traced ((CompressingWriter.finishFrame_keeps start turns c hc).of_ok hw)
        hmake
    rw [hempty] at hfinished
    exact ⟨hfinished, fun hnone => (hfinished.intact hnone).trans (List.append_nil _)⟩
  · obtain ⟨start, hmake, rfl⟩ := DecompressingWriter.create_ok hfirst
    have hd := htried.accounts (Session.accounted_new start o.destinationLength)
    have hrecounted := Session.Accounted.recorded hd hmake
    refine ⟨hrecounted, hrecounted.intact, fun turns d' hfinish => ?_⟩
    obtain ⟨hd', hempty⟩ := DecompressingWriter.finish_accounts hd hfinish (by simp)
    have hfinished : Recounted (givenBy d'.session.codec.record)
        d'.session.destination.bytes.data.toList d'.writer.calls :=
      Session.Accounted.recorded hd' hmake
    rw [hempty rfl] at hfinished
    exact ⟨hfinished, fun hnone => (hfinished.intact hnone).trans (List.append_nil _)⟩

/-! ### A writer behind that is busy once -/

namespace Busy

def failure : IoError := .plain .wouldBlock "busy"

/-- A writer that refuses its first write and accepts all the others. -/
def target : ScriptedWriter := ⟨.empty, [.error failure], [], #[]⟩

def source : Slice := .ofBytes ⟨#[1, 2]⟩

def compressor : CompressingWriter (Recorded CopyingCodec) (Observed ScriptedWriter) :=
  ⟨.new target, ⟨⟨Trailed.codec, #[]⟩, ⟨.empty, 2⟩, .active⟩⟩

/-- A codec for which each byte is a frame. -/
def codec : ScriptedCodec := ⟨[.act 1 ⟨#[1]⟩ .done, .act 1 ⟨#[2]⟩ .done]⟩

def decompressor :
    DecompressingWriter (Framed (Recorded ScriptedCodec)) (Observed ScriptedWriter) :=
  ⟨.new target, ⟨{ codec := ⟨codec, #[]⟩ }, ⟨.empty, 1⟩, .active⟩⟩

end Busy

/-- The first bytes are skipped, once, and finishing succeeds. -/
theorem writers_skip_what_was_refused_once :
    let c := (Busy.compressor.write 9 Busy.source).2
    let d := ((Busy.decompressor.write 9 (Busy.source.take 1)).2.write 9 (Busy.source.drop 1)).2
    Recounted [1, 2, 9] [] (c.finish 9).2.writer.calls
      ∧ Recounted [1, 2] [] (d.finish 9).2.writer.calls := by
  have hcompress : Busy.compressor.write 9 Busy.source
      = (.error (.failed (Error.toIoError (.writeIo Busy.failure))),
        (Busy.compressor.write 9 Busy.source).2) := rfl
  have hdecompress : Busy.decompressor.write 9 (Busy.source.take 1)
      = (.error (.failed (Error.toIoError (.writeIo Busy.failure))),
        (Busy.decompressor.write 9 (Busy.source.take 1)).2) := rfl
  have hagain : (Busy.decompressor.write 9 (Busy.source.take 1)).2.write 9 (Busy.source.drop 1)
      = (.ok 1,
        ((Busy.decompressor.write 9 (Busy.source.take 1)).2.write 9 (Busy.source.drop 1)).2) := rfl
  obtain ⟨hcompressor, -⟩ := writers_skip_what_was_refused (κ := CopyingCodec) .machine Busy.target
    #[] #[]
  obtain ⟨-, hdecompressor⟩ := writers_skip_what_was_refused (κ := ScriptedCodec) .machine
    Busy.target #[] #[]
  obtain ⟨-, -, hc⟩ := hcompressor (fun _ => .ok Trailed.codec) { destinationBufferLength := 2 }
    Busy.compressor _ rfl (.write .nil hcompress (by simp))
  obtain ⟨-, -, hd⟩ := hdecompressor (fun _ => .ok Busy.codec) { destinationBufferLength := 1 }
    Busy.decompressor _ rfl (.write (.write .nil hdecompress (by simp)) hagain (by simp))
  exact ⟨(hc 9 _ rfl).1, (hd 9 _ rfl).1⟩

/-- **A failed write leaves a gap, and finishing does not tell.** -/
theorem finish_behind_a_gap :
    (∃ c c', CompressingWriter.create .machine (tracing Trailed.make)
          { destinationBufferLength := 2 } (Observed.new Busy.target) #[]
        = (.ok Busy.compressor, #[])
      ∧ Busy.compressor.write 9 Busy.source
        = (.error (.failed (Error.toIoError (.writeIo Busy.failure))), c)
      ∧ c.finish 9 = (.ok (), c')
      ∧ givenBy c'.session.codec.record = [1, 2, 9] ∧ acceptedBy c'.writer.calls = [9])
    ∧ ∃ d d' d'', DecompressingWriter.create .machine (recording fun _ => .ok Busy.codec)
          { destinationBufferLength := 1 } (Observed.new Busy.target) #[]
        = (.ok Busy.decompressor, #[])
      ∧ Busy.decompressor.write 9 (Busy.source.take 1)
        = (.error (.failed (Error.toIoError (.writeIo Busy.failure))), d)
      ∧ d.write 9 (Busy.source.drop 1) = (.ok 1, d') ∧ d'.finish 9 = (.ok (), d'')
      ∧ givenBy d''.session.codec.record = [1, 2] ∧ acceptedBy d''.writer.calls = [2] :=
  ⟨⟨_, _, rfl, rfl, rfl, rfl, rfl⟩, _, _, _, rfl, rfl, rfl, rfl, rfl, rfl⟩

end Zstandard
