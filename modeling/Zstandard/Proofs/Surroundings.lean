import Zstandard.Proofs.Dialogue

/-!
# One driver in two surroundings

A driver meets its ends only when it refills its source and when it writes its output out. Two ends
that are alike in this, whatever calls it takes (`ReadsAlike`, `WritesAlike`), are alike to all of
it: from two drivers that differ in their ends alone, each operation that comes to its end on one
side comes to the same on the other, and leaves two drivers that differ in their ends alone, which
are again alike.

`Tracks` says this of work, and is followed through a sequence of moves by `Tracks.bind`; each loop
needs one induction on its turns.
-/

namespace Zstandard

section Tracks

variable {ε α β σ τ : Type} {R : σ → τ → Prop}

/-- What an outcome comes to, another run comes to as well, and leaves a state in `R`. -/
def Follows (R : σ → τ → Prop) (outcome : Except (Halt ε) α × σ)
    (run : Nat → Except (Halt ε) α × τ) : Prop :=
  ∀ answer s', outcome = (answered answer, s') →
    ∃ t', Settles run (answered answer, t') ∧ R s' t'

/-- From states in `R`, what some work comes to other work comes to as well. -/
def Tracks (R : σ → τ → Prop) (work : EStateM (Halt ε) σ α)
    (work' : Nat → EStateM (Halt ε) τ α) : Prop :=
  ∀ s t, R s t → Follows R (outcomeOf (work s)) (fun turns => outcomeOf (work' turns t))

/-- An outcome that a run has from some turn on. -/
theorem Follows.intro (answer : Except ε α) {s : σ} {t : τ} {run : Nat → Except (Halt ε) α × τ}
    (hrun : Settles run (answered answer, t)) (h : R s t) :
    Follows R (answered answer, s) run := by
  intro answer' s' heq
  obtain ⟨hanswer, rfl⟩ := Prod.mk.inj heq
  exact ⟨t, hanswer ▸ hrun, h⟩

/-- Nothing is asked of a run that is cut off. -/
theorem Follows.outOfTurns {s : σ} {run : Nat → Except (Halt ε) α × τ} :
    Follows R (.error .outOfTurns, s) run :=
  fun answer _ heq => absurd (Prod.mk.inj heq).1.symm (answered_ne answer)

/-- What a value is made into makes no difference. -/
theorem Follows.map {outcome : Except (Halt ε) α × σ} {run : Nat → Except (Halt ε) α × τ}
    (h : Follows R outcome run) (f : α → β) :
    Follows R (outcome.1.map f, outcome.2) (fun turns => ((run turns).1.map f, (run turns).2)) := by
  obtain ⟨result, s⟩ := outcome
  intro answer s' heq
  obtain ⟨hresult, rfl⟩ := Prod.mk.inj heq
  obtain ⟨told, rfl⟩ := exists_answered_of_map hresult
  obtain ⟨t', hset, h'⟩ := h told s rfl
  exact ⟨t', hset.imp fun turns hturns => by rw [hturns, ← hresult], h'⟩

/-- A success is followed by a run that settles with the same. -/
theorem Follows.of_ok {result : EStateM.Result (Halt ε) σ α}
    {run : Nat → EStateM.Result (Halt ε) τ α} {a : α} {s' : σ}
    (h : Follows R (outcomeOf result) fun turns => outcomeOf (run turns))
    (hw : result = .ok a s') : ∃ t', Settles run (.ok a t') ∧ R s' t' := by
  obtain ⟨t', hset, h'⟩ := h (.ok a) s' (by rw [hw]; rfl)
  exact ⟨t', hset.imp fun turns hturns => outcomeOf_inj hturns, h'⟩

/-- A failure is followed by a run that settles with the same. -/
theorem Follows.of_error {result : EStateM.Result (Halt ε) σ α}
    {run : Nat → EStateM.Result (Halt ε) τ α} {e : ε} {s' : σ}
    (h : Follows R (outcomeOf result) fun turns => outcomeOf (run turns))
    (hw : result = .error (.failed e) s') :
    ∃ t', Settles run (.error (.failed e) t') ∧ R s' t' := by
  obtain ⟨t', hset, h'⟩ := h (.error e) s' (by rw [hw]; rfl)
  exact ⟨t', hset.imp fun turns hturns => outcomeOf_inj hturns, h'⟩

theorem Tracks.of_ok {work : EStateM (Halt ε) σ α} {work' : Nat → EStateM (Halt ε) τ α}
    (h : Tracks R work work') {s s' : σ} {t : τ} {a : α} (hst : R s t) (hw : work s = .ok a s') :
    ∃ t', Settles (fun turns => work' turns t) (.ok a t') ∧ R s' t' :=
  (h s t hst).of_ok hw

theorem Tracks.of_error {work : EStateM (Halt ε) σ α} {work' : Nat → EStateM (Halt ε) τ α}
    (h : Tracks R work work') {s s' : σ} {t : τ} {e : ε} (hst : R s t)
    (hw : work s = .error (.failed e) s') :
    ∃ t', Settles (fun turns => work' turns t) (.error (.failed e) t') ∧ R s' t' :=
  (h s t hst).of_error hw

theorem Tracks.pure (a : α) :
    Tracks R (Pure.pure a : EStateM (Halt ε) σ α) (fun _ => Pure.pure a) :=
  fun _ _ h => Follows.intro (.ok a) Settles.const h

theorem Tracks.throw (e : ε) :
    Tracks R (MonadExcept.throw (.failed e) : EStateM (Halt ε) σ α)
      (fun _ => MonadExcept.throw (.failed e)) :=
  fun _ _ h => Follows.intro (.error e) Settles.const h

/-- Whatever it is, work tracks what has no turns. -/
theorem tracks_outOfTurns (work' : Nat → EStateM (Halt ε) τ α) :
    Tracks R (MonadExcept.throw .outOfTurns) work' :=
  fun _ _ _ => Follows.outOfTurns

/-- Work after work that is followed. -/
theorem Follows.bind {work : EStateM (Halt ε) σ α} {work' : Nat → EStateM (Halt ε) τ α}
    {k : α → EStateM (Halt ε) σ β} {k' : Nat → α → EStateM (Halt ε) τ β} {s : σ} {t : τ}
    (h : Follows R (outcomeOf (work s)) fun turns => outcomeOf (work' turns t))
    (hk : ∀ a, Tracks R (k a) fun turns => k' turns a) :
    Follows R (outcomeOf ((work >>= k) s))
      fun turns => outcomeOf ((work' turns >>= k' turns) t) := by
  intro answer s' hw
  cases hx : work s with
  | ok a s₁ =>
      rw [bind_of_ok hx] at hw
      obtain ⟨t₁, hset, h₁⟩ := h.of_ok hx
      obtain ⟨t', hset', h'⟩ := hk a s₁ t₁ h₁ answer s' hw
      refine ⟨t', hset.imp₂ hset' fun turns hx' hk' => ?_, h'⟩
      exact (congrArg outcomeOf (bind_of_ok hx' (k' turns))).trans hk'
  | error x s₁ =>
      rw [bind_of_error hx] at hw
      cases answer <;> cases hw
      obtain ⟨t', hset, h'⟩ := h.of_error hx
      exact ⟨t', hset.imp fun turns hx' => congrArg outcomeOf (bind_of_error hx' (k' turns)), h'⟩

/-- **Work after work is tracked** if both are. -/
theorem Tracks.bind {work : EStateM (Halt ε) σ α} {work' : Nat → EStateM (Halt ε) τ α}
    {k : α → EStateM (Halt ε) σ β} {k' : Nat → α → EStateM (Halt ε) τ β} (h : Tracks R work work')
    (hk : ∀ a, Tracks R (k a) fun turns => k' turns a) :
    Tracks R (work >>= k) fun turns => work' turns >>= k' turns :=
  fun s t hst => (h s t hst).bind hk

/-- One turn more or less makes no difference. -/
theorem Tracks.of_succ {work : EStateM (Halt ε) σ α} {work' : Nat → EStateM (Halt ε) τ α}
    (h : Tracks R work fun turns => work' (turns + 1)) : Tracks R work work' := by
  intro s t hst answer s' hw
  obtain ⟨t', hset, h'⟩ := h s t hst answer s' hw
  exact ⟨t', Settles.of_succ hset, h'⟩

/-- A move that does not meet what differs is the same on both sides. -/
theorem Tracks.of_inner {work : EStateM (Halt ε) σ α} {work' : EStateM (Halt ε) τ α}
    (h : ∀ {s t}, R s t → ∃ x s' t', outcomeOf (work s) = (x, s')
      ∧ outcomeOf (work' t) = (x, t') ∧ R s' t') :
    Tracks R work (fun _ => work') := by
  intro s t hst answer s₁ hw
  obtain ⟨x, s', t', hwork, hwork', h'⟩ := h hst
  rw [hwork] at hw
  obtain ⟨rfl, rfl⟩ := Prod.mk.inj hw
  exact ⟨t', ⟨0, fun _ _ => hwork'⟩, h'⟩

/-- A look at the state decides alike on both sides. -/
theorem Tracks.test {test : σ → Bool} {test' : τ → Bool} {yes no : EStateM (Halt ε) σ α}
    {yes' no' : Nat → EStateM (Halt ε) τ α} (htest : ∀ s t, R s t → test s = test' t)
    (hyes : Tracks R yes yes') (hno : Tracks R no no') :
    Tracks R (do if test (← get) then yes else no)
      (fun turns => do if test' (← get) then yes' turns else no' turns) := by
  intro s t hst
  show Follows R (outcomeOf ((if test s then yes else no) s))
    (fun turns => outcomeOf ((if test' t then yes' turns else no' turns) t))
  rw [← htest s t hst]
  cases test s with
  | true => exact hyes s t hst
  | false => exact hno s t hst

/-- From states in `R`, a dialogue on one side is a dialogue on the other. -/
def HoldsAlike {ο : Type} (R : σ → τ → Prop)
    (perform : (turns : Nat) → ο → σ → Except (Halt ε) α × σ)
    (perform' : (turns : Nat) → ο → τ → Except (Halt ε) α × τ) : Prop :=
  ∀ (s s' : σ) (t : τ) (said : List (ο × Except ε α)), R s t → Dialogue perform s said s' →
    ∃ t', Dialogue perform' t said t' ∧ R s' t'

theorem holdsAlike_of_follows {ο : Type} {perform : (turns : Nat) → ο → σ → Except (Halt ε) α × σ}
    {perform' : (turns : Nat) → ο → τ → Except (Halt ε) α × τ}
    (h : ∀ turns operation s t, R s t →
      Follows R (perform turns operation s) fun turns => perform' turns operation t) :
    HoldsAlike R perform perform' := by
  intro s s' t said hst hsaid
  refine hsaid.matched ?_ hst
  intro turns operation answer s s' t hst hop
  obtain ⟨t', hset, h'⟩ := h turns operation s t hst answer s' hop
  obtain ⟨turns', hturns'⟩ := hset.reached
  exact ⟨turns', t', hturns', h'⟩

end Tracks

/-! ## Ends that are alike -/

/-- Ends from which a source buffer is filled alike. -/
def ReadsAlike {ρ ρ' : Type} [Reader ρ] [Reader ρ'] (same : ρ → ρ' → Prop) : Prop :=
  ∀ {r r'}, same r r' → ∀ {turns : Nat} {b b' : SourceBuffer} {answer : Except Error Refill}
    {r₁ : ρ}, b.fill turns r = (answered answer, b', r₁) →
    ∃ r₁', Settles (fun turns => b.fill turns r') (answered answer, b', r₁') ∧ same r₁ r₁'

/-- Ends to which output is written, and that are flushed, alike. -/
structure WritesAlike {ω ω' : Type} [Writer ω] [Writer ω'] (same : ω → ω' → Prop) : Prop where
  /-- Writing everything comes to the same. -/
  write : ∀ {w w'}, same w w' → ∀ {turns : Nat} {s : Slice} {answer : Except IoError Unit} {w₁ : ω},
    writeAll turns w s = (answered answer, w₁) →
    ∃ w₁', Settles (fun turns => writeAll turns w' s) (answered answer, w₁') ∧ same w₁ w₁'
  /-- A flush comes to the same. -/
  flush : ∀ {w w'}, same w w' → ∀ {result : Except IoError Unit} {w₁ : ω},
    Writer.flush w = (result, w₁) →
    ∃ w₁', Writer.flush w' = (result, w₁') ∧ same w₁ w₁'

/-! Ends are alike if they answer every single call alike. -/

section Calls

variable {ε ε' : Type} {same : ε → ε' → Prop}

theorem readsAlike_of_read [Reader ε] [Reader ε']
    (h : ∀ {e e'}, same e e' → ∀ room, ∃ result e₁ e₁', Reader.read e room = (result, e₁)
      ∧ Reader.read e' room = (result, e₁') ∧ same e₁ e₁') : ReadsAlike same := by
  intro e e' hsame turns b b' answer e₁ hfill
  -- on the turns, which are used up by interruptions
  induction turns generalizing e e' with
  | zero => exact absurd (Prod.mk.inj hfill).1.symm (answered_ne answer)
  | succ turns ih =>
      obtain ⟨result, e₂, e₂', hread, hread', hsame₂⟩ := h hsame (b.capacity - b.bytes.size)
      rcases b.fill_of_read result with ⟨told, b₂, hsettled⟩ | hagain
      · rw [hsettled hread] at hfill
        obtain ⟨hanswer, hrest⟩ := Prod.mk.inj hfill
        obtain ⟨rfl, rfl⟩ := Prod.mk.inj hrest
        rw [← hanswer]
        exact ⟨e₂', Settles.of_succ ⟨0, fun turns _ => hsettled hread' turns⟩, hsame₂⟩
      · rw [hagain hread] at hfill
        obtain ⟨e₁', hset, hsame₁⟩ := ih hsame₂ hfill
        refine ⟨e₁', Settles.of_succ (hset.imp fun turns hturns => ?_), hsame₁⟩
        exact (hagain hread' turns).trans hturns

theorem writesAlike_of_write [Writer ε] [Writer ε']
    (hwrite : ∀ {e e'}, same e e' → ∀ s, ∃ result e₁ e₁', Writer.write e s = (result, e₁)
      ∧ Writer.write e' s = (result, e₁') ∧ same e₁ e₁')
    (hflush : ∀ {e e'}, same e e' → ∃ result e₁ e₁', Writer.flush e = (result, e₁)
      ∧ Writer.flush e' = (result, e₁') ∧ same e₁ e₁') : WritesAlike same where
  write := by
    intro e e' hsame turns
    -- on the turns, which are used up by interruptions and short writes
    induction turns generalizing e e' with
    | zero =>
        intro s answer e₁ hw
        cases hs : s.isEmpty with
        | true =>
            rw [writeAll_of_isEmpty hs] at hw
            obtain ⟨hanswer, rfl⟩ := Prod.mk.inj hw
            rw [← hanswer]
            exact ⟨e', ⟨0, fun _ _ => writeAll_of_isEmpty hs⟩, hsame⟩
        | false =>
            rw [writeAll_zero hs] at hw
            exact absurd (Prod.mk.inj hw).1.symm (answered_ne answer)
    | succ turns ih =>
        intro s answer e₁ hw
        cases hs : s.isEmpty with
        | true =>
            rw [writeAll_of_isEmpty hs] at hw
            obtain ⟨hanswer, rfl⟩ := Prod.mk.inj hw
            rw [← hanswer]
            exact ⟨e', ⟨0, fun _ _ => writeAll_of_isEmpty hs⟩, hsame⟩
        | false =>
            obtain ⟨result, e₂, e₂', hstep, hstep', hsame₂⟩ := hwrite hsame s
            rcases writeAll_of_write hs result with ⟨told, hended⟩ | ⟨rest, hagain⟩
            · rw [hended hstep] at hw
              obtain ⟨hanswer, rfl⟩ := Prod.mk.inj hw
              rw [← hanswer]
              exact ⟨e₂', Settles.of_succ ⟨0, fun turns _ => hended hstep' turns⟩, hsame₂⟩
            · rw [hagain hstep] at hw
              obtain ⟨e₁', hset, hsame₁⟩ := ih hsame₂ hw
              refine ⟨e₁', Settles.of_succ (hset.imp fun turns hturns => ?_), hsame₁⟩
              exact (hagain hstep' turns).trans hturns
  flush := by
    intro e e' hsame result e₁ hw
    obtain ⟨result', e₂, e₂', hstep, hstep', hsame₂⟩ := hflush hsame
    obtain ⟨rfl, rfl⟩ := Prod.mk.inj (hstep.symm.trans hw)
    exact ⟨e₂', hstep', hsame₂⟩

end Calls

/-! A reader and a writer that know nothing of each other are alike if each is. -/

section Ends

variable {ρ ρ' ω ω' : Type}

/-- The readers are in one relation, and the writers in another. -/
def Ends.Both (sameReader : ρ → ρ' → Prop) (sameWriter : ω → ω' → Prop) (e : Ends ρ ω)
    (e' : Ends ρ' ω') : Prop :=
  sameReader e.reader e'.reader ∧ sameWriter e.writer e'.writer

theorem SourceBuffer.fill_ends [Reader ρ] : ∀ (turns : Nat) (b : SourceBuffer) (r : ρ) (w : ω),
    b.fill turns (⟨r, w⟩ : Ends ρ ω)
      = ((b.fill turns r).1, (b.fill turns r).2.1, ⟨(b.fill turns r).2.2, w⟩) := by
  intro turns
  induction turns with
  | zero => exact fun _ _ _ => rfl
  | succ turns ih =>
      intro b r w
      obtain ⟨result, r', hread⟩ :
          ∃ result r', Reader.read r (b.capacity - b.bytes.size) = (result, r') := ⟨_, _, rfl⟩
      have hends := Ends.read_of hread w
      rcases fill_of_read b result with ⟨told, b', hsettled⟩ | hagain
      · rw [hsettled hread, hsettled hends]
      · rw [hagain hread, hagain hends]
        exact ih b r' w

theorem writeAll_ends [Writer ω] : ∀ (turns : Nat) (r : ρ) (w : ω) (s : Slice),
    writeAll turns (⟨r, w⟩ : Ends ρ ω) s
      = ((writeAll turns w s).1, ⟨r, (writeAll turns w s).2⟩) := by
  intro turns
  induction turns with
  | zero =>
      intro r w s
      unfold writeAll writeAllBy
      split <;> rfl
  | succ turns ih =>
      intro r w s
      cases hs : s.isEmpty with
      | true => rw [writeAll_of_isEmpty hs, writeAll_of_isEmpty hs]
      | false =>
          obtain ⟨result, w', hw⟩ : ∃ result w', Writer.write w s = (result, w') := ⟨_, _, rfl⟩
          have hends := Ends.write_of hw r
          rcases writeAll_of_write hs result with ⟨told, hended⟩ | ⟨rest, hagain⟩
          · rw [hended hw, hended hends]
          · rw [hagain hw, hagain hends]
            exact ih r w' rest

variable {sameReader : ρ → ρ' → Prop} {sameWriter : ω → ω' → Prop}

theorem ReadsAlike.ends [Reader ρ] [Reader ρ'] (h : ReadsAlike sameReader) :
    ReadsAlike (Ends.Both sameReader sameWriter) := by
  rintro ⟨r, w⟩ ⟨r', w'⟩ ⟨hreader, hwriter⟩ turns b b' answer e₁ hfill
  rw [SourceBuffer.fill_ends] at hfill
  obtain ⟨hanswer, hrest⟩ := Prod.mk.inj hfill
  obtain ⟨rfl, rfl⟩ := Prod.mk.inj hrest
  obtain ⟨r₁', hset, hsame⟩ := h hreader (Prod.ext hanswer (Prod.ext rfl rfl))
  refine ⟨⟨r₁', w'⟩, hset.imp fun turns hturns => ?_, hsame, hwriter⟩
  rw [SourceBuffer.fill_ends, hturns]

theorem WritesAlike.ends [Writer ω] [Writer ω'] (h : WritesAlike sameWriter) :
    WritesAlike (Ends.Both sameReader sameWriter) where
  write := by
    rintro ⟨r, w⟩ ⟨r', w'⟩ ⟨hreader, hwriter⟩ turns s answer e₁ hwrite
    rw [writeAll_ends] at hwrite
    obtain ⟨hanswer, rfl⟩ := Prod.mk.inj hwrite
    obtain ⟨w₁', hset, hsame⟩ := h.write hwriter (Prod.ext hanswer rfl)
    refine ⟨⟨r', w₁'⟩, hset.imp fun turns hturns => ?_, hreader, hsame⟩
    rw [writeAll_ends, hturns]
  flush := by
    rintro ⟨r, w⟩ ⟨r', w'⟩ ⟨hreader, hwriter⟩ result e₁ hflush
    obtain ⟨hresult, rfl⟩ := Prod.mk.inj hflush
    obtain ⟨w₁', hflush', hsame⟩ := h.flush hwriter (Prod.ext hresult rfl)
    exact ⟨⟨r', w₁'⟩, Ends.flush_of hflush' r', hreader, hsame⟩

end Ends

section Buffers

variable {ε ε' : Type} {same : ε → ε' → Prop} {e e' e₁ : ε} {x x' : ε'}

theorem SourceBuffer.refill_alike [Reader ε] [Reader ε'] (hreads : ReadsAlike same)
    (hsame : same e x) {turns : Nat} {b b' : SourceBuffer} {answer : Except Error Refill}
    (h : b.refill turns e = (answered answer, b', e₁)) :
    ∃ x₁, Settles (fun turns => b.refill turns x) (answered answer, b', x₁) ∧ same e₁ x₁ := by
  by_cases hfull : b.compact.bytes.size = b.compact.capacity
  · rw [refill_of_full hfull] at h
    obtain ⟨hanswer, hrest⟩ := Prod.mk.inj h
    obtain ⟨rfl, rfl⟩ := Prod.mk.inj hrest
    rw [← hanswer]
    exact ⟨x, ⟨0, fun turns _ => refill_of_full hfull turns x⟩, hsame⟩
  · rw [refill_of_not_full hfull] at h
    simp only [refill_of_not_full hfull]
    exact hreads hsame h

theorem DestinationBuffer.flush_alike [Writer ε] [Writer ε'] (hwrites : WritesAlike same)
    (hsame : same e x) {turns : Nat} {b b' : DestinationBuffer} {answer : Except Error Unit}
    (h : b.flush turns e = (answered answer, b', e₁)) :
    ∃ x₁, Settles (fun turns => b.flush turns x) (answered answer, b', x₁) ∧ same e₁ x₁ := by
  unfold DestinationBuffer.flush at h ⊢
  by_cases hzero : b.bytes.size = 0
  · simp only [if_pos hzero] at h ⊢
    obtain ⟨hanswer, hrest⟩ := Prod.mk.inj h
    obtain ⟨rfl, rfl⟩ := Prod.mk.inj hrest
    rw [← hanswer]
    exact ⟨x, Settles.const, hsame⟩
  · simp only [if_neg hzero] at h ⊢
    obtain ⟨result, e₂, hw⟩ : ∃ result e₂, writeAll turns e (.ofBytes b.bytes) = (result, e₂) :=
      ⟨_, _, rfl⟩
    rw [hw] at h
    obtain ⟨told, rfl⟩ : ∃ told, result = answered told := exists_answered fun hcut => by
      rw [hcut] at h
      exact answered_ne answer (Prod.mk.inj h).1.symm
    obtain ⟨x₁, hset, hsame₁⟩ := hwrites.write hsame hw
    cases told with
    | ok =>
        cases answer <;> cases h
        exact ⟨x₁, hset.imp fun turns hturns => by simp only [hturns]; rfl, hsame₁⟩
    | error e =>
        cases answer <;> cases h
        exact ⟨x₁, hset.imp fun turns hturns => by simp only [hturns]; rfl, hsame₁⟩

theorem DestinationBuffer.writeRemaining_alike [Writer ε] [Writer ε'] (hwrites : WritesAlike same)
    (hsame : same e x) {turns : Nat} {b b' : DestinationBuffer} {answer : Except Error Unit}
    (h : b.writeRemaining turns e = (answered answer, b', e₁)) :
    ∃ x₁, Settles (fun turns => b.writeRemaining turns x) (answered answer, b', x₁)
      ∧ same e₁ x₁ := by
  unfold DestinationBuffer.writeRemaining at h ⊢
  by_cases hzero : b.bytes.size = 0
  · simp only [if_pos hzero] at h ⊢
    obtain ⟨hanswer, hrest⟩ := Prod.mk.inj h
    obtain ⟨rfl, rfl⟩ := Prod.mk.inj hrest
    rw [← hanswer]
    exact ⟨x, Settles.const, hsame⟩
  · simp only [if_neg hzero] at h ⊢
    exact DestinationBuffer.flush_alike hwrites hsame h

end Buffers

end Zstandard
