import Zstandard.Proofs.Faltering
import Zstandard.Script

/-!
# Reads that are tried again

The reader behind a compressing or a decompressing reader may fail, with a failure that is not an
interruption, and go on as if nothing had been. Then the read that met the failure answers with it,
as it is, and has not lost anything: what it was about to do, the next read does.

So a caller who reads again is served as if there had been no failures, and leaves the codec as if
there had been none (`reads_survive_failures`). `Pull.Hinders` is what a fill owes for this; the two
loops above it, and the dialogue, follow.
-/

namespace Zstandard

/-- The kinds of failure that a refill does not try again after. -/
def Lasting (kind : IoKind) : Prop := kind ≠ .interrupted

section Runs

variable {ε α σ : Type}

/-- From some turn on, one run does with fewer turns what the other does. -/
def Lags {β : Type} (run run' : Nat → β) : Prop := ∃ k, ∀ turns, run (turns + k) = run' turns

theorem Lags.refl {β : Type} {run : Nat → β} : Lags run run := ⟨0, fun _ => rfl⟩

theorem Lags.trans {β : Type} {run run' run'' : Nat → β} (h : Lags run run')
    (h' : Lags run' run'') : Lags run run'' := by
  obtain ⟨k, hk⟩ := h
  obtain ⟨l, hl⟩ := h'
  exact ⟨l + k, fun turns => by rw [← hl, ← hk, Nat.add_assoc]⟩

theorem Lags.map {β γ : Type} {run run' : Nat → β} (h : Lags run run') (f : β → γ) :
    Lags (fun turns => f (run turns)) fun turns => f (run' turns) := by
  obtain ⟨k, hk⟩ := h
  exact ⟨k, fun turns => congrArg f (hk turns)⟩

/-- Runs that differ in some turns at the start settle alike. -/
theorem Lags.settles_iff {β : Type} {run run' : Nat → β} (h : Lags run run') {x : β} :
    Settles run x ↔ Settles run' x := by
  obtain ⟨k, hk⟩ := h
  constructor
  · rintro ⟨n, hn⟩
    exact ⟨n, fun turns hle => (hk turns).symm.trans (hn _ (by omega))⟩
  · rintro ⟨n, hn⟩
    refine ⟨n + k, fun turns hle => ?_⟩
    obtain ⟨m, rfl⟩ : ∃ m, turns = m + k := ⟨turns - k, by omega⟩
    exact (hk m).trans (hn m (by omega))

/-- An operation that is tried again after each failure it meets comes to be answered. -/
inductive Retried (met : σ → List IoError) (fails : IoError → ε)
    (run : (turns : Nat) → σ → Except (Halt ε) α × σ) (answer : Except ε α) (s' : σ) : σ → Prop
  where
  | answered {s : σ} (turns : Nat) : run turns s = (Zstandard.answered answer, s') →
    met s' = met s → Retried met fails run answer s' s
  | failed {s s₁ : σ} {e : IoError} (turns : Nat) :
    run turns s = (.error (.failed (fails e)), s₁) → met s₁ = met s ++ [e] →
    Retried met fails run answer s' s₁ → Retried met fails run answer s' s

/-- What is answered from behind a state is answered from it. -/
theorem Retried.of_behind {met : σ → List IoError} {fails : IoError → ε}
    {run : (turns : Nat) → σ → Except (Halt ε) α × σ} {answer : Except ε α} {s s₁ s' : σ}
    (hmet : met s₁ = met s)
    (hrun : ∀ {turns} told {u}, run turns s₁ = (Zstandard.answered told, u) →
      ∃ turns', run turns' s = (Zstandard.answered told, u))
    (h : Retried met fails run answer s' s₁) : Retried met fails run answer s' s := by
  cases h with
  | answered turns hanswer hkept =>
      obtain ⟨turns', h'⟩ := hrun answer hanswer
      exact .answered turns' h' (hkept.trans hmet)
  | failed turns hfail hmet' hrest =>
      obtain ⟨turns', h'⟩ := hrun (.error (fails _)) hfail
      exact .failed turns' h' (by rw [hmet', hmet]) hrest

end Runs

/-! ## Filling a buffer -/

namespace SourceBuffer

section Refill

variable {ρ : Type} [Reader ρ] {b b' : SourceBuffer}

/-- **A fill meets one failure or none**: without one it comes to the same as if there were none to
meet; with one it fails, and leaves all there is to be read. -/
theorem fill_faltering : ∀ (turns : Nat) {f f' : Faltering Lasting ρ}
    {answer : Except Error Refill}, b.fill turns f = (answered answer, b', f') →
    (f'.met = f.met ∧ Settles (fun turns => b.fill turns f.reader) (answered answer, b', f'.reader))
    ∨ ∃ e, f'.met = f.met ++ [e] ∧ answer = .error (.readIo e) ∧ b' = b
      ∧ Lags (fun turns => b.fill turns f.reader) fun turns => b.fill turns f'.reader := by
  intro turns
  induction turns with
  | zero =>
      intro f f' answer h
      exact absurd (Prod.mk.inj h).1.symm (answered_ne answer)
  | succ turns ih =>
      rintro ⟨reader, now, later, met⟩ f' answer h
      cases now with
      | cons e now =>
          rw [fill_of_failure Faltering.read_of_failure e.2] at h
          obtain ⟨hanswer, hrest⟩ := Prod.mk.inj h
          obtain ⟨rfl, rfl⟩ := Prod.mk.inj hrest
          refine .inr ⟨e.1, rfl, ?_, rfl, Lags.refl⟩
          cases answer <;> cases hanswer
          rfl
      | nil =>
          obtain ⟨result, reader', hread⟩ : ∃ result reader',
              Reader.read reader (b.capacity - b.bytes.size) = (result, reader') := ⟨_, _, rfl⟩
          have hfread := Faltering.read_of_none (P := Lasting) later met hread
          rcases fill_of_read b result with ⟨told, b₁, hsettled⟩ | hagain
          · rw [hsettled hfread] at h
            obtain ⟨hanswer, hrest⟩ := Prod.mk.inj h
            obtain ⟨rfl, rfl⟩ := Prod.mk.inj hrest
            rw [← hanswer]
            exact .inl ⟨rfl, Settles.of_succ ⟨0, fun turns _ => hsettled hread turns⟩⟩
          · rw [hagain hfread] at h
            have hlag : Lags (fun turns => b.fill turns reader) fun turns => b.fill turns reader' :=
              ⟨1, fun turns => hagain hread turns⟩
            rcases ih h with ⟨hmet, hset⟩ | ⟨e, hmet, hanswer, hb, hlags⟩
            · exact .inl ⟨hmet, hlag.settles_iff.mpr hset⟩
            · exact .inr ⟨e, hmet, hanswer, hb, hlag.trans hlags⟩

theorem refill_faltering {turns : Nat} {f f' : Faltering Lasting ρ} {answer : Except Error Refill}
    (h : b.refill turns f = (answered answer, b', f')) :
    (f'.met = f.met
      ∧ Settles (fun turns => b.refill turns f.reader) (answered answer, b', f'.reader))
    ∨ ∃ e, f'.met = f.met ++ [e] ∧ answer = .error (.readIo e) ∧ b' = b.compact
      ∧ Lags (fun turns => b.refill turns f.reader) fun turns => b.refill turns f'.reader := by
  by_cases hfull : b.compact.bytes.size = b.compact.capacity
  · rw [refill_of_full hfull] at h
    obtain ⟨hanswer, hrest⟩ := Prod.mk.inj h
    obtain ⟨rfl, rfl⟩ := Prod.mk.inj hrest
    rw [← hanswer]
    exact .inl ⟨rfl, 0, fun turns _ => refill_of_full hfull turns f.reader⟩
  · rw [refill_of_not_full hfull] at h
    simp only [refill_of_not_full hfull]
    exact fill_faltering turns h

/-- A refill of a compact buffer that has room, tried again after each failure. -/
theorem refill_retried_of_compact : ∀ (turns : Nat) {r r' : ρ} {answer : Except Error Refill},
    b.compact = b → b.fill turns r = (answered answer, b', r') →
    b.bytes.size ≠ b.capacity → ∀ {f : Faltering Lasting ρ}, f.reader = r →
    ∃ f', f'.reader = r' ∧ Retried (fun s => s.2.met) Error.readIo
      (fun turns (s : SourceBuffer × Faltering Lasting ρ) => s.1.refill turns s.2) answer (b', f')
      (b, f) := by
  intro turns
  induction turns with
  | zero =>
      intro r r' answer _ h
      exact absurd (Prod.mk.inj h).1.symm (answered_ne answer)
  | succ turns ih =>
      rintro r r' answer hcompact h hroom ⟨reader, now, later, met⟩ rfl
      have hrefill : ∀ turns (f : Faltering Lasting ρ), b.refill turns f = b.fill turns f := by
        intro turns f
        rw [refill_of_not_full (by rwa [hcompact]), hcompact]
      -- and on the failures before the read
      induction now generalizing met with
      | cons e now ihnow =>
          obtain ⟨f', hf', hretried⟩ := ihnow (met ++ [e.1]) h
          refine ⟨f', hf', .failed (e := e.1) 1 ?_ rfl hretried⟩
          dsimp only
          rw [hrefill, fill_of_failure Faltering.read_of_failure e.2]
      | nil =>
          obtain ⟨result, reader', hread⟩ : ∃ result reader',
              Reader.read reader (b.capacity - b.bytes.size) = (result, reader') := ⟨_, _, rfl⟩
          have hfread := Faltering.read_of_none (P := Lasting) later met hread
          dsimp only at h
          rcases fill_of_read b result with ⟨told, b₁, hsettled⟩ | hagain
          · rw [hsettled hread] at h
            obtain ⟨hanswer, hrest⟩ := Prod.mk.inj h
            obtain ⟨rfl, rfl⟩ := Prod.mk.inj hrest
            subst hanswer
            exact ⟨_, rfl, .answered 1 ((hrefill 1 _).trans (hsettled hfread 0)) rfl⟩
          · rw [hagain hread] at h
            obtain ⟨f', hf', hretried⟩ :=
              ih hcompact h hroom (f := ⟨reader', later 0, fun n => later (n + 1), met⟩) rfl
            refine ⟨f', hf', hretried.of_behind ?_ ?_⟩
            · rfl
            · intro turns told u hrun
              dsimp only at hrun ⊢
              rw [hrefill] at hrun
              exact ⟨turns + 1, by rw [hrefill, hagain hfread, hrun]⟩

/-- **A refill that is tried again** after each failure comes to what it comes to without any. -/
theorem refill_retried {turns : Nat} {r r' : ρ} {answer : Except Error Refill}
    (h : b.refill turns r = (answered answer, b', r')) {f : Faltering Lasting ρ}
    (hf : f.reader = r) :
    ∃ f', f'.reader = r' ∧ Retried (fun s => s.2.met) Error.readIo
      (fun turns (s : SourceBuffer × Faltering Lasting ρ) => s.1.refill turns s.2) answer (b', f')
      (b, f) := by
  by_cases hfull : b.compact.bytes.size = b.compact.capacity
  · rw [refill_of_full hfull] at h
    obtain ⟨hanswer, hrest⟩ := Prod.mk.inj h
    obtain ⟨rfl, rfl⟩ := Prod.mk.inj hrest
    refine ⟨f, hf, .answered 0 ?_ rfl⟩
    dsimp only
    rw [refill_of_full hfull, hanswer]
  · rw [refill_of_not_full hfull] at h
    obtain ⟨f', hf', hretried⟩ := refill_retried_of_compact turns (compact_compact b) h hfull hf
    refine ⟨f', hf', hretried.of_behind ?_ ?_⟩
    · rfl
    · intro turns told u hrun
      dsimp only at hrun
      exact ⟨turns, by rw [← hrun, refill_compact]⟩

end Refill

end SourceBuffer

/-! ## Making output -/

namespace Pull

variable {σ τ : Type} [Pull σ] [Pull τ]

/-- What it takes for output to be prepared, or for that to fail. -/
theorem settles_prepare_iff {t u : τ} {answer : Except Error Unit} (hready : Pull.ready t = false) :
    Settles (fun turns => prepare turns t) (answered answer, u)
      ↔ (∃ t₁, Settles (fun turns => Pull.fill turns t) (.ok (), t₁)
          ∧ Settles (fun turns => prepare turns t₁) (answered answer, u))
        ∨ ∃ e, answer = .error e
          ∧ Settles (fun turns => Pull.fill turns t) (.error (.failed e), u) := by
  constructor
  · intro h
    obtain ⟨turns, hturns⟩ := h.reached
    cases turns with
    | zero => exact absurd (Prod.mk.inj hturns).1.symm (answered_ne answer)
    | succ turns =>
        obtain ⟨result, t₁, hfill⟩ : ∃ result t₁, Pull.fill turns t = (result, t₁) := ⟨_, _, rfl⟩
        cases result with
        | ok =>
            rw [prepare_of_fill hready hfill] at hturns
            refine .inl ⟨t₁, ?_, ?_⟩
            · rw [← hfill]
              exact settles_of_stands (fun turns => fill_stands turns t) (by rw [hfill]; simp [Cut])
            · rw [← hturns]
              exact settles_of_stands (fun turns => prepare_stands turns t₁)
                (by rw [hturns]; exact answered_ne answer)
        | error x =>
            rw [prepare_of_failure hready hfill] at hturns
            cases answer with
            | ok => cases hturns
            | error e =>
                cases hturns
                refine .inr ⟨e, rfl, ?_⟩
                rw [← hfill]
                exact settles_of_stands (fun turns => fill_stands turns t)
                  (by rw [hfill]; simp [Cut])
  · rintro (⟨t₁, hfill, h⟩ | ⟨e, rfl, hfill⟩)
    · exact settles_prepare_of_fill hready hfill h
    · exact settles_prepare_of_failure hready hfill

/-- From the second state goes on what was begun in the first: output is prepared alike. -/
def Resumes (t t' : τ) : Prop :=
  ∀ answer u, Settles (fun turns => prepare turns t) (answered answer, u)
    ↔ Settles (fun turns => prepare turns t') (answered answer, u)

theorem Resumes.refl (t : τ) : Resumes t t := fun _ _ => Iff.rfl

theorem Resumes.trans {t t' t'' : τ} (h : Resumes t t') (h' : Resumes t' t'') : Resumes t t'' :=
  fun answer u => (h answer u).trans (h' answer u)

/-- A fill is the beginning of what prepares output. -/
theorem resumes_of_fill {t t₁ : τ} (hready : Pull.ready t = false)
    (hfill : Settles (fun turns => Pull.fill turns t) (.ok (), t₁)) : Resumes t t₁ := by
  intro answer u
  rw [settles_prepare_iff hready]
  constructor
  · rintro (⟨t₂, hfill', h⟩ | ⟨e, -, hfill'⟩)
    · obtain rfl : t₁ = t₂ := (Prod.mk.inj (hfill.unique hfill')).2
      exact h
    · exact absurd (Prod.mk.inj (hfill.unique hfill')).1 nofun
  · exact fun h => .inl ⟨t₁, hfill, h⟩

/-- Fills that differ in some turns at the start prepare the same. -/
theorem resumes_of_lags {t t' : τ} (hready : Pull.ready t = false) (hready' : Pull.ready t' = false)
    (h : Lags (fun turns => Pull.fill turns t) fun turns => Pull.fill turns t') : Resumes t t' := by
  intro answer u
  simp only [settles_prepare_iff hready, settles_prepare_iff hready', h.settles_iff]

/-- What a read that goes on comes to, a read from where it was begun comes to. -/
theorem Resumes.read {t t' u : τ} (h : Resumes t t') {room : Nat} (hroom : room ≠ 0)
    {answer : Except IoError ByteArray}
    (hread : Settles (fun turns => Pull.read turns room t') (answered answer, u)) :
    Settles (fun turns => Pull.read turns room t) (answered answer, u) := by
  obtain ⟨turns, hturns⟩ := hread.reached
  obtain ⟨told, u₁, hprepare, hafter⟩ := exists_prepare_of_read hroom hturns
  have hset := settles_of_stands (fun turns => prepare_stands turns t') (n := turns)
    (by rw [hprepare]; exact answered_ne told)
  rw [hprepare, ← h told u₁] at hset
  rw [← hafter]
  exact settles_read_of_prepare hroom hset

/-- What a fill owes where the reader behind fails now and then. `calm` is the state with a reader
that does not, `met` are the failures so far. -/
structure Hinders (calm : σ → τ) (met : σ → List IoError) : Prop where
  /-- There is the same output. -/
  output : ∀ s, output (calm s) = output s
  /-- Both have ended, or neither. -/
  ended : ∀ s, ended (calm s) = ended s
  /-- Other output is put in on both sides. -/
  holding : ∀ s o, calm (Pull.holding s o) = Pull.holding (calm s) o
  /-- Output is not what fails. -/
  met_holding : ∀ s o, met (Pull.holding s o) = met s
  /-- A fill meets one failure or none, and one that meets a failure leaves all there is to do. -/
  fill : ∀ {turns s answer s'}, fill turns s = (answered answer, s') →
    (met s' = met s ∧ Settles (fun turns => Pull.fill turns (calm s)) (answered answer, calm s'))
    ∨ ∃ e, met s' = met s ++ [e] ∧ answer = .error (.readIo e) ∧ ready s' = ready s
      ∧ Lags (fun turns => Pull.fill turns (calm s)) fun turns => Pull.fill turns (calm s')
  /-- A fill that is tried again comes to what it comes to without failures. -/
  retried : ∀ {turns s answer t'}, Pull.fill turns (calm s) = (answered answer, t') →
    ∃ s', calm s' = t' ∧ Retried met Error.readIo (fun turns s => Pull.fill turns s) answer s' s

namespace Hinders

variable {calm : σ → τ} {met : σ → List IoError}

theorem ready (h : Hinders calm met) (s : σ) : Pull.ready (calm s) = Pull.ready s := by
  unfold Pull.ready
  rw [h.output, h.ended]

/-- **Preparing output meets one failure or none.** -/
theorem prepare (h : Hinders calm met) : ∀ (turns : Nat) {s s' : σ} {answer : Except Error Unit},
    Pull.prepare turns s = (answered answer, s') →
    (met s' = met s
      ∧ Settles (fun turns => Pull.prepare turns (calm s)) (answered answer, calm s'))
    ∨ ∃ e, met s' = met s ++ [e] ∧ answer = .error (.readIo e) ∧ Resumes (calm s) (calm s') := by
  intro turns
  induction turns with
  | zero =>
      intro s s' answer hw
      exact absurd (Prod.mk.inj hw).1.symm (answered_ne answer)
  | succ turns ih =>
      intro s s' answer hw
      have hcalm := h.ready s
      cases hready : Pull.ready s with
      | true =>
          rw [prepare_of_ready hready] at hw
          rw [hready] at hcalm
          obtain ⟨hanswer, rfl⟩ := Prod.mk.inj hw
          rw [← hanswer]
          exact .inl ⟨rfl, settles_prepare_of_ready hcalm⟩
      | false =>
          rw [hready] at hcalm
          obtain ⟨result, s₁, hfill⟩ : ∃ result s₁, Pull.fill turns s = (result, s₁) := ⟨_, _, rfl⟩
          cases result with
          | ok =>
              rw [prepare_of_fill hready hfill] at hw
              rcases h.fill (show _ = (answered (.ok ()), _) from hfill) with
                ⟨hmet, hset⟩ | ⟨e, -, hok, -⟩
              · have hresumes := resumes_of_fill hcalm hset
                rcases ih hw with ⟨hmet', hset'⟩ | ⟨e, hmet', hanswer, hresumes'⟩
                · exact .inl ⟨hmet'.trans hmet, (hresumes _ _).mpr hset'⟩
                · exact .inr ⟨e, by rw [hmet', hmet], hanswer, hresumes.trans hresumes'⟩
              · cases hok
          | error x =>
              rw [prepare_of_failure hready hfill] at hw
              obtain ⟨hanswer, rfl⟩ := Prod.mk.inj hw
              rw [hanswer] at hfill
              rcases h.fill hfill with ⟨hmet, hset⟩ | ⟨e, hmet, hanswer', hready', hlags⟩
              · refine .inl ⟨hmet, ?_⟩
                rw [← hanswer] at hset ⊢
                exact settles_prepare_of_failure hcalm hset
              · refine .inr ⟨e, hmet, hanswer', resumes_of_lags hcalm ?_ hlags⟩
                rw [h.ready, hready', hready]

/-- **A read meets one failure or none**, and one that meets a failure answers with it. -/
theorem read (h : Hinders calm met) {turns room : Nat} {s s' : σ}
    {answer : Except IoError ByteArray} (hread : Pull.read turns room s = (answered answer, s')) :
    (met s' = met s
      ∧ Settles (fun turns => Pull.read turns room (calm s)) (answered answer, calm s'))
    ∨ ∃ e, met s' = met s ++ [e] ∧ answer = .error e ∧ room ≠ 0
      ∧ Resumes (calm s) (calm s') := by
  by_cases hroom : room = 0
  · subst hroom
    obtain ⟨hanswer, rfl⟩ := Prod.mk.inj hread
    rw [← hanswer]
    exact .inl ⟨rfl, 0, fun _ _ => rfl⟩
  · obtain ⟨told, s₁, hprepare, hafter⟩ := exists_prepare_of_read hroom hread
    rcases h.prepare turns hprepare with ⟨hmet, hset⟩ | ⟨e, hmet, rfl, hresumes⟩
    · have hset' := settles_read_of_prepare hroom hset
      cases told with
      | error e =>
          obtain ⟨hanswer, rfl⟩ := Prod.mk.inj hafter
          exact .inl ⟨hmet, hanswer ▸ hset'⟩
      | ok =>
          obtain ⟨hanswer, rfl⟩ := Prod.mk.inj hafter
          refine .inl ⟨(h.met_holding s₁ _).trans hmet, ?_⟩
          rw [← hanswer, serve, h.holding, ← h.output s₁]
          exact hset'
    · obtain ⟨hanswer, rfl⟩ := Prod.mk.inj hafter
      exact .inr ⟨e, hmet, (answered_inj (a := .error e) hanswer).symm, hroom, hresumes⟩

/-- The failures before a fill is answered are failures before output is prepared. -/
theorem retried_prepare (h : Hinders calm met) {s s₁ s' : σ} {told answer : Except Error Unit}
    (hfill : Retried met Error.readIo (fun turns s => Pull.fill turns s) told s₁ s)
    (hready : Pull.ready s = false)
    (hlast : ∀ {turns s}, Pull.ready s = false → Pull.fill turns s = (answered told, s₁) →
      met s₁ = met s → Retried met Error.readIo (fun turns s => Pull.prepare turns s) answer s' s) :
    Retried met Error.readIo (fun turns s => Pull.prepare turns s) answer s' s := by
  induction hfill with
  | answered turns hrun hmet => exact hlast hready hrun hmet
  | @failed s s₂ e turns hrun hmet _ ih =>
      refine .failed (turns + 1) (prepare_of_failure hready hrun) hmet (ih ?_)
      rcases h.fill (show _ = (answered (.error (.readIo e)), _) from hrun) with
        ⟨hkept, -⟩ | ⟨-, -, -, hready', -⟩
      · rw [hkept] at hmet
        simp at hmet
      · rw [hready', hready]

/-- **Output that is prepared again after each failure** is what it is without any. -/
theorem prepare_retried (h : Hinders calm met) : ∀ (turns : Nat) {s : σ} {t' : τ}
    {answer : Except Error Unit}, Pull.prepare turns (calm s) = (answered answer, t') →
    ∃ s', calm s' = t'
      ∧ Retried met Error.readIo (fun turns s => Pull.prepare turns s) answer s' s := by
  intro turns
  induction turns with
  | zero =>
      intro s t' answer hw
      exact absurd (Prod.mk.inj hw).1.symm (answered_ne answer)
  | succ turns ih =>
      intro s t' answer hw
      have hcalm := h.ready s
      cases hready : Pull.ready s with
      | true =>
          rw [hready] at hcalm
          rw [prepare_of_ready hcalm] at hw
          obtain ⟨hanswer, rfl⟩ := Prod.mk.inj hw
          refine ⟨s, rfl, .answered 1 ?_ rfl⟩
          rw [← hanswer]
          exact prepare_of_ready hready
      | false =>
          rw [hready] at hcalm
          obtain ⟨result, t₁, hfill⟩ : ∃ result t₁, Pull.fill turns (calm s) = (result, t₁) :=
            ⟨_, _, rfl⟩
          cases result with
          | ok =>
              rw [prepare_of_fill hcalm hfill] at hw
              obtain ⟨s₁, rfl, hretried⟩ := h.retried (show _ = (answered (.ok ()), _) from hfill)
              obtain ⟨s', hs', hrest⟩ := ih hw
              refine ⟨s', hs', h.retried_prepare hretried hready ?_⟩
              intro turns s₂ hready₂ hfill₂ hmet₂
              refine hrest.of_behind hmet₂ fun {turns told u} hrun => ?_
              have hset := settles_of_stands (fun turns => fill_stands turns s₂)
                (by rw [hfill₂]; exact answered_ne (.ok ()))
              have hset' := settles_of_stands (fun turns => prepare_stands turns s₁)
                (by rw [hrun]; exact answered_ne told)
              rw [hfill₂] at hset
              rw [hrun] at hset'
              exact (settles_prepare_of_fill hready₂ hset hset').reached
          | error x =>
              rw [prepare_of_failure hcalm hfill] at hw
              obtain ⟨hanswer, rfl⟩ := Prod.mk.inj hw
              cases answer with
              | ok => cases hanswer
              | error e =>
                  cases hanswer
                  obtain ⟨s', hs', hretried⟩ :=
                    h.retried (show _ = (answered (.error e), _) from hfill)
                  refine ⟨s', hs', h.retried_prepare hretried hready ?_⟩
                  intro turns s₂ hready₂ hfill₂ hmet₂
                  exact .answered (turns + 1) (prepare_of_failure hready₂ hfill₂) hmet₂

/-- **A read that is tried again** after each failure it meets is answered as without any. -/
theorem read_retried (h : Hinders calm met) {turns room : Nat} {s : σ} {t' : τ}
    {answer : Except IoError ByteArray}
    (hread : Pull.read turns room (calm s) = (answered answer, t')) :
    ∃ s', calm s' = t'
      ∧ Retried met id (fun turns s => Pull.read turns room s) answer s' s := by
  by_cases hroom : room = 0
  · subst hroom
    obtain ⟨hanswer, rfl⟩ := Prod.mk.inj hread
    exact ⟨s, rfl, .answered 0 (hanswer ▸ rfl) rfl⟩
  · obtain ⟨told, t₁, hprepare, hafter⟩ := exists_prepare_of_read hroom hread
    obtain ⟨s₁, rfl, hretried⟩ := h.prepare_retried turns hprepare
    obtain ⟨s', hs', hafter', hmet⟩ : ∃ s', calm s' = t'
        ∧ readAfter room s₁ told = (answered answer, s') ∧ met s' = met s₁ := by
      cases told with
      | error e =>
          obtain ⟨hanswer, rfl⟩ := Prod.mk.inj hafter
          exact ⟨s₁, rfl, Prod.ext hanswer rfl, rfl⟩
      | ok =>
          obtain ⟨hanswer, rfl⟩ := Prod.mk.inj hafter
          refine ⟨serve room s₁, ?_, ?_, h.met_holding s₁ _⟩
          · rw [serve, serve, h.holding, h.output]
          · rw [← hanswer, h.output]
            rfl
    refine ⟨s', hs', ?_⟩
    clear hread hafter hprepare hs'
    induction hretried with
    | answered turns hrun hkept =>
        exact .answered turns ((read_of_prepare hroom hrun).trans hafter') (hmet.trans hkept)
    | @failed s s₂ e turns hrun hmet' _ ih =>
        have hread := read_of_prepare hroom (show _ = (answered (.error (.readIo e)), _) from hrun)
        exact .failed turns hread hmet' ih

end Hinders

/-- What hinders a state hinders what it is made into on both sides. -/
theorem Hinders.along {σ' τ' : Type} [Pull σ'] [Pull τ'] {calm : σ → τ} {met : σ → List IoError}
    {calm' : σ' → τ'} {met' : σ' → List IoError} {f : σ → σ'} {f' : τ → τ'}
    (h : Hinders calm met) (hf : Commutes f) (hf' : Commutes f') (hsurj : Function.Surjective f)
    (hcalm : ∀ s, calm' (f s) = f' (calm s)) (hmet : ∀ s, met' (f s) = met s) :
    Hinders calm' met' := by
  refine ⟨?_, ?_, ?_, ?_, ?_, ?_⟩
  · intro s
    obtain ⟨s, rfl⟩ := hsurj s
    rw [hcalm, hf'.output, h.output, hf.output]
  · intro s
    obtain ⟨s, rfl⟩ := hsurj s
    rw [hcalm, hf'.ended, h.ended, hf.ended]
  · intro s o
    obtain ⟨s, rfl⟩ := hsurj s
    rw [hf.holding, hcalm, hcalm, hf'.holding, h.holding]
  · intro s o
    obtain ⟨s, rfl⟩ := hsurj s
    rw [hf.holding, hmet, hmet, h.met_holding]
  · intro turns s answer s' hfill
    obtain ⟨s, rfl⟩ := hsurj s
    rw [hf.fill] at hfill
    obtain ⟨hanswer, rfl⟩ := Prod.mk.inj hfill
    simp only [hcalm, hmet, hf.ready, hf'.fill]
    rcases h.fill (Prod.ext hanswer rfl) with ⟨hkept, hset⟩ | ⟨e, hmet', he, hready, hlags⟩
    · exact .inl ⟨hkept, hset.imp fun turns hturns => by rw [hturns]⟩
    · exact .inr ⟨e, hmet', he, hready, hlags.map fun x => (x.1, f' x.2)⟩
  · intro turns s answer t' hfill
    obtain ⟨s, rfl⟩ := hsurj s
    rw [hcalm, hf'.fill] at hfill
    obtain ⟨hanswer, rfl⟩ := Prod.mk.inj hfill
    obtain ⟨s', hs', hretried⟩ := h.retried (Prod.ext hanswer rfl)
    refine ⟨f s', by rw [hcalm, hs'], ?_⟩
    clear hfill hanswer hs'
    induction hretried with
    | @answered s turns hrun hkept =>
        refine .answered turns ?_ (by rw [hmet, hmet, hkept])
        rw [hf.fill, hrun]
    | @failed s s₁ e turns hrun hmet' _ ih =>
        refine .failed turns ?_ (by rw [hmet, hmet, hmet']) ih
        rw [hf.fill, hrun]

end Pull

namespace Fetch

variable {γ ρ : Type} [Fetch γ] [Reader ρ]

/-- **A fill in front of a reader that falters** meets one failure or none, and one that meets a
failure leaves all there is to do. -/
theorem fill_faltering {turns : Nat} {g : γ} {f : Faltering Lasting ρ} {answer : Except Error Unit}
    {s' : γ × Faltering Lasting ρ} (hfill : Fetch.fill turns (g, f) = (answered answer, s')) :
    (s'.2.met = f.met ∧ Settles (fun turns => Fetch.fill turns (g, f.reader))
        (answered answer, s'.1, s'.2.reader))
    ∨ ∃ e, s'.2.met = f.met ++ [e] ∧ answer = .error (.readIo e)
      ∧ Pull.ready s' = Pull.ready (g, f)
      ∧ Lags (fun turns => Fetch.fill turns (g, f.reader))
        fun turns => Fetch.fill turns (s'.1, s'.2.reader) := by
  cases hneeds : needs g with
  | false =>
      rw [fill_of_works hneeds] at hfill
      obtain ⟨hresult, rfl⟩ := Prod.mk.inj hfill
      refine .inl ⟨rfl, 0, fun turns _ => (fill_of_works hneeds turns f.reader).trans ?_⟩
      exact Prod.ext hresult rfl
  | true =>
      rw [fill_of_needs hneeds] at hfill
      simp only [fill_of_needs hneeds]
      obtain ⟨result, b, f₁, hrefill⟩ :
          ∃ result b f₁, (source g).refill turns f = (result, b, f₁) := ⟨_, _, _, rfl⟩
      rw [hrefill] at hfill
      obtain ⟨hresult, rfl⟩ := Prod.mk.inj hfill
      obtain ⟨told, rfl⟩ := exists_answered_of_taken hresult
      rcases SourceBuffer.refill_faltering hrefill with ⟨hmet, hset⟩ | ⟨e, hmet, rfl, rfl, hlags⟩
      · refine .inl ⟨hmet, hset.imp fun turns hturns => ?_⟩
        rw [hturns]
        exact Prod.ext hresult rfl
      · refine .inr ⟨e, hmet, (answered_inj (a := .error _) hresult).symm, ?_, ?_⟩
        · simp only [taken, answered_error, Pull.ready, Pull.output, Pull.ended, output_refit,
            ended_refit]
        · -- the source it left is compact, which makes no difference to the next refill
          have hneeds' : needs (refit g (source g).compact) = true := by rw [needs_compact, hneeds]
          have hrest : (fun turns => Fetch.fill turns (refit g (source g).compact, f₁.reader))
              = fun turns => after g ((source g).refill turns f₁.reader) := by
            funext turns
            rw [fill_of_needs hneeds', source_refit, SourceBuffer.refill_compact, after_refit]
          show Lags _ fun turns => Fetch.fill turns (refit g (source g).compact, f₁.reader)
          rw [hrest]
          exact hlags.map (after g)

/-- Each failing refill is a failing fill, of the state with the source that it left. -/
theorem retried_fill {g : γ} {b : SourceBuffer} {f' : Faltering Lasting ρ}
    {told : Except Error Refill} {answer : Except Error Unit}
    (htaken : (taken g b (answered told)).1 = answered answer)
    {s : SourceBuffer × Faltering Lasting ρ}
    (hs : Retried (fun s => s.2.met) Error.readIo (fun turns s => s.1.refill turns s.2) told (b, f')
      s) (hneeds : needs (refit g s.1) = true) :
    Retried (fun s => s.2.met) Error.readIo (fun turns s => Fetch.fill turns s) answer
      ((taken g b (answered told)).2, f') (refit g s.1, s.2) := by
  induction hs with
  | @answered s turns hrun hmet =>
      refine .answered turns ?_ hmet
      rw [fill_of_needs hneeds, source_refit, after_refit, hrun]
      exact Prod.ext htaken rfl
  | @failed s s₁ e turns hrun hmet _ ih =>
      refine .failed turns ?_ hmet (ih ?_)
      · rw [fill_of_needs hneeds, source_refit, after_refit, hrun]
        rfl
      · have hrefill : s.1.refill turns s.2 = (answered (.error (.readIo e)), s₁) := hrun
        rcases SourceBuffer.refill_faltering hrefill with ⟨hkept, -⟩ | ⟨-, -, -, hb, -⟩
        · rw [hkept] at hmet
          simp at hmet
        · have hcompact := needs_compact (refit g s.1)
          rw [source_refit, refit_refit] at hcompact
          rw [hb, hcompact, hneeds]

/-- **A fill that is tried again** after each failure comes to what it comes to without any. -/
theorem fill_retried {turns : Nat} {g : γ} {f : Faltering Lasting ρ} {answer : Except Error Unit}
    {t' : γ × ρ} (hfill : Fetch.fill turns (g, f.reader) = (answered answer, t')) :
    ∃ s' : γ × Faltering Lasting ρ, (s'.1, s'.2.reader) = t'
      ∧ Retried (fun s => s.2.met) Error.readIo (fun turns s => Fetch.fill turns s) answer s'
        (g, f) := by
  cases hneeds : needs g with
  | false =>
      rw [fill_of_works hneeds] at hfill
      obtain ⟨hresult, rfl⟩ := Prod.mk.inj hfill
      refine ⟨((work g).2, f), rfl, .answered 0 ?_ rfl⟩
      exact (fill_of_works hneeds 0 f).trans (Prod.ext hresult rfl)
  | true =>
      rw [fill_of_needs hneeds] at hfill
      obtain ⟨result, b, r, hrefill⟩ :
          ∃ result b r, (source g).refill turns f.reader = (result, b, r) := ⟨_, _, _, rfl⟩
      rw [hrefill] at hfill
      obtain ⟨hresult, rfl⟩ := Prod.mk.inj hfill
      obtain ⟨told, rfl⟩ := exists_answered_of_taken hresult
      obtain ⟨f', rfl, hretried⟩ := SourceBuffer.refill_retried hrefill rfl
      refine ⟨((taken g b (answered told)).2, f'), rfl, ?_⟩
      have hs := retried_fill hresult hretried (by rw [refit_source, hneeds])
      rwa [refit_source] at hs

/-- **A state in front of a reader that falters.** -/
theorem hinders : Pull.Hinders (fun s : γ × Faltering Lasting ρ => (s.1, s.2.reader))
    fun s => s.2.met where
  output _ := rfl
  ended _ := rfl
  holding _ _ := rfl
  met_holding _ _ := rfl
  fill hfill := fill_faltering hfill
  retried hfill := fill_retried hfill

end Fetch

/-! ## Callers who read again -/

section Persistence

variable {σ τ : Type}

/-- A caller who reads again after each failure of the reader behind leads from `first` to a state,
with these answers; those failures are not among them. Whether the last of them is still to be
followed by an answered read, which has to have room, is told by the flag. -/
inductive Persistence (read : (turns room : Nat) → σ → Except (Halt IoError) ByteArray × σ)
    (met : σ → List IoError) (first : σ) :
    List (Nat × Except IoError ByteArray) → (again : Bool) → σ → Prop where
  | nil : Persistence read met first [] false first
  | failed {said : List (Nat × Except IoError ByteArray)} {again : Bool} {s s' : σ}
      {room : Nat} {e : IoError} : Persistence read met first said again s → (turns : Nat) →
      read turns room s = (.error (.failed e), s') → met s' = met s ++ [e] →
      Persistence read met first said true s'
  | answered {said : List (Nat × Except IoError ByteArray)} {again : Bool} {s s' : σ}
      {room : Nat} {answer : Except IoError ByteArray} :
      Persistence read met first said again s → (turns : Nat) →
      read turns room s = (Zstandard.answered answer, s') → met s' = met s →
      Persistence read met first (said ++ [(room, answer)]) (again && room == 0) s'

/-- A reader survives the failures of the reader behind it, which are in `met`. `read'` reads from
`calm first`, the same state in front of a reader that does not fail. -/
structure SurvivesFailures
    (read : (turns room : Nat) → σ → Except (Halt IoError) ByteArray × σ)
    (read' : (turns room : Nat) → τ → Except (Halt IoError) ByteArray × τ)
    (calm : σ → τ) (met : σ → List IoError) : Prop where
  /-- A read meets one failure or none. One that it meets is what it answers with. -/
  meets : ∀ {turns room s s'} {answer : Except IoError ByteArray},
    read turns room s = (answered answer, s') →
    met s' = met s ∨ ∃ e, met s' = met s ++ [e] ∧ answer = .error e
  /-- A caller who reads again is answered as if there were no failures, and leaves the same
  state, which holds the codec, once a read has been answered. -/
  served : ∀ {first s said again}, Persistence read met first said again s →
    ∃ t, Dialogue read' (calm first) said t ∧ (again = false → t = calm s)
  /-- Whatever is answered without failures is answered to a caller who reads again. -/
  serves : ∀ {first said t}, Dialogue read' (calm first) said t →
    ∃ s, Persistence read met first said false s ∧ calm s = t

end Persistence

namespace Pull

variable {σ τ : Type} [Pull σ] [Pull τ] {calm : σ → τ} {met : σ → List IoError}

/-- A caller who reads again is where a caller is who meets no failure, or on the way there. -/
theorem Hinders.served (h : Hinders calm met) {first s : σ}
    {said : List (Nat × Except IoError ByteArray)} {again : Bool}
    (hpersistence : Persistence Pull.read met first said again s) :
    ∃ t, Dialogue Pull.read (calm first) said t ∧ (again = false → t = calm s)
      ∧ Resumes t (calm s) := by
  induction hpersistence with
  | nil => exact ⟨calm first, .nil, fun _ => rfl, Resumes.refl _⟩
  | @failed said again s s' room e _ turns hread hmet ih =>
      obtain ⟨t, hsaid, -, hresumes⟩ := ih
      rcases h.read (show _ = (answered (.error e), _) from hread) with
        ⟨hkept, -⟩ | ⟨-, -, -, -, hresumes'⟩
      · rw [hkept] at hmet
        simp at hmet
      · exact ⟨t, hsaid, nofun, hresumes.trans hresumes'⟩
  | @answered said again s s' room answer _ turns hread hmet ih =>
      obtain ⟨t, hsaid, hsame, hresumes⟩ := ih
      by_cases hroom : room = 0
      · -- a read without room answers nothing, and leaves the caller where it is
        subst hroom
        obtain ⟨hanswer, rfl⟩ := Prod.mk.inj hread
        refine ⟨t, hsaid.snoc 0 (Prod.ext hanswer rfl), ?_, hresumes⟩
        simpa using hsame
      · rcases h.read hread with ⟨-, hset⟩ | ⟨e, hmet', -⟩
        · obtain ⟨turns', hturns'⟩ := (hresumes.read hroom hset).reached
          exact ⟨calm s', hsaid.snoc turns' hturns', fun _ => rfl, Resumes.refl _⟩
        · rw [hmet] at hmet'
          simp at hmet'

/-- A read that is tried again until it is answered goes on what a caller was told. -/
theorem persistence_of_retried {first s s' : σ} {said : List (Nat × Except IoError ByteArray)}
    {again : Bool} {room : Nat} {answer : Except IoError ByteArray}
    (h : Retried met id (fun turns s => Pull.read turns room s) answer s' s)
    (hsaid : Persistence Pull.read met first said again s) (hagain : room = 0 → again = false) :
    Persistence Pull.read met first (said ++ [(room, answer)]) false s' := by
  induction h generalizing again with
  | answered turns hread hmet =>
      have hnext := hsaid.answered turns hread hmet
      have hflag : (again && room == 0) = false := by
        cases again with
        | false => rfl
        | true => simpa using fun hroom => absurd (hagain hroom) (by simp)
      rwa [hflag] at hnext
  | failed turns hread hmet _ ih =>
      refine ih (hsaid.failed turns hread hmet) fun hroom => ?_
      -- a read without room does not fail
      subst hroom
      cases hread

/-- **A reader survives the failures** that hinder its fills. -/
theorem Hinders.survives (h : Hinders calm met) :
    SurvivesFailures Pull.read Pull.read calm met where
  meets hread := by
    rcases h.read hread with ⟨hmet, -⟩ | ⟨e, hmet, hanswer, -⟩
    · exact .inl hmet
    · exact .inr ⟨e, hmet, hanswer⟩
  served hpersistence := by
    obtain ⟨t, hsaid, hsame, -⟩ := h.served hpersistence
    exact ⟨t, hsaid, hsame⟩
  serves hsaid := by
    induction hsaid with
    | nil => exact ⟨_, .nil, rfl⟩
    | snoc _ turns hread ih =>
        obtain ⟨s, hpersistence, rfl⟩ := ih
        obtain ⟨s', hs', hretried⟩ := h.read_retried hread
        exact ⟨s', persistence_of_retried hretried hpersistence fun _ => rfl, hs'⟩

end Pull

/-! ## The two readers -/

/-- The reader, with what is behind it put in the place of a reader that falters. -/
def CompressingReader.calm {κ ρ : Type} {P : IoKind → Prop}
    (c : CompressingReader κ (Faltering P ρ)) : CompressingReader κ ρ :=
  ⟨c.reader.reader, c.source, c.session, c.output, c.destinationFull, c.finishing⟩

/-- The reader, with what is behind it put in the place of a reader that falters. -/
def DecompressingReader.calm {κ ρ : Type} {P : IoKind → Prop}
    (d : DecompressingReader κ (Faltering P ρ)) : DecompressingReader κ ρ :=
  ⟨d.reader.reader, d.source, d.session, d.output, d.destinationFull, d.stalled, d.finished⟩

/-- **Readers survive the failures of the reader behind them.** Take a reader that compresses or
decompresses, in any state, around any codec, and any reader behind it. Put any failures that are
not interruptions before the reads of that reader, any finite number before each. A read meets one
of them or none, and answers with the one that it meets. A caller who reads again after each of them
is given the same bytes, the same other failures and the same end as without them, and leaves the
same state of the codec, with the record of its steps if it keeps one. -/
theorem reads_survive_failures {κ ρ : Type} [Codec κ] [Reader ρ] :
    SurvivesFailures (CompressingReader.read (κ := κ) (ρ := Faltering Lasting ρ))
        CompressingReader.read CompressingReader.calm (fun c => c.reader.met)
      ∧ SurvivesFailures (DecompressingReader.read (κ := κ) (ρ := Faltering Lasting ρ))
        DecompressingReader.read DecompressingReader.calm (fun d => d.reader.met) := by
  have hcompress : ∀ {ρ : Type} [Reader ρ],
      CompressingReader.read (κ := κ) (ρ := ρ) = Pull.read := by
    intro ρ _
    funext turns room c
    exact c.read_eq turns room
  have hdecompress : ∀ {ρ : Type} [Reader ρ],
      DecompressingReader.read (κ := κ) (ρ := ρ) = Pull.read := by
    intro ρ _
    funext turns room d
    exact d.read_eq turns room
  rw [hcompress, hcompress, hdecompress, hdecompress]
  constructor
  · exact (Fetch.hinders.along CompressingReader.commutes_join CompressingReader.commutes_join
      (fun c => ⟨c.apart, rfl⟩) (fun _ => rfl) fun _ => rfl).survives
  · exact (Fetch.hinders.along DecompressingReader.commutes_join DecompressingReader.commutes_join
      (fun d => ⟨d.apart, rfl⟩) (fun _ => rfl) fun _ => rfl).survives

/-! ### A reader that is busy twice -/

namespace BusyReader

def failure : {e : IoError // Lasting e.kind} := ⟨.plain .wouldBlock "busy", nofun⟩

/-- A reader of two bytes, which fails before each of its first two reads. -/
def reader : Faltering Lasting Slice :=
  ⟨.ofBytes ⟨#[1, 2]⟩, [failure], fun n => if n = 0 then [failure] else [], []⟩

def decompressor : DecompressingReader (Recorded CopyingCodec) (Faltering Lasting Slice) :=
  ⟨reader, ⟨.empty, 0, 4⟩, ⟨⟨⟨none, .empty⟩, #[]⟩, ⟨.empty, 4⟩, .active⟩, .empty, false, false,
    false⟩

/-- Where some reads lead. -/
def after (reads : Nat) : DecompressingReader (Recorded CopyingCodec) (Faltering Lasting Slice) :=
  reads.repeat (fun d => (d.read 9 5).2) decompressor

theorem persistence : Persistence DecompressingReader.read (fun d => d.reader.met) decompressor
    [(5, .ok ⟨#[1, 2]⟩), (5, .ok .empty)] false (after 4) := by
  have h₁ : Persistence DecompressingReader.read (fun d => d.reader.met) decompressor [] true
      (after 1) := .failed .nil 9 (show DecompressingReader.read 9 5 _ = _ from rfl) rfl
  have h₂ : Persistence DecompressingReader.read (fun d => d.reader.met) decompressor
      [(5, .ok ⟨#[1, 2]⟩)] false (after 2) := h₁.answered 9 rfl rfl
  have h₃ : Persistence DecompressingReader.read (fun d => d.reader.met) decompressor
      [(5, .ok ⟨#[1, 2]⟩)] true (after 3) :=
    h₂.failed 9 (show DecompressingReader.read 9 5 _ = _ from rfl) rfl
  exact h₃.answered 9 rfl rfl

end BusyReader

/-- A caller who reads again both times has the two bytes and the end, and the codec has made the
steps that it makes without the failures. -/
theorem reads_survive_failures_when_busy :
    (BusyReader.after 4).reader.met = [BusyReader.failure.1, BusyReader.failure.1]
      ∧ ∃ t, Dialogue DecompressingReader.read BusyReader.decompressor.calm
          [(5, .ok ⟨#[1, 2]⟩), (5, .ok .empty)] t
        ∧ t.session.codec.calls = (BusyReader.after 4).session.codec.calls := by
  obtain ⟨-, hsurvives⟩ := reads_survive_failures (κ := Recorded CopyingCodec) (ρ := Slice)
  obtain ⟨t, hsaid, hsame⟩ := hsurvives.served BusyReader.persistence
  exact ⟨rfl, t, hsaid, by rw [hsame rfl]; rfl⟩

end Zstandard
