import Zstandard.Proofs.Buffers
import Zstandard.Proofs.Pulling
import Zstandard.Proofs.Surroundings

/-!
# Readers apart from the reader behind them

A reader that compresses or decompresses meets the reader behind it only when it refills its source.
`Fetch` is what it does besides: whether it needs a refill, what it does after one, and what it does
without one. Put beside a reader behind, it is such a reader again
(`CompressingReader.commutes_join`, `DecompressingReader.commutes_join`).

Two readers are alike (`Pull.Alike`) if a fill comes to the same on both sides; then so does every
read.
-/

namespace Zstandard

/-! ## Readers that are alike -/

namespace Pull

variable {σ τ : Type} [Pull σ] [Pull τ] {R : σ → τ → Prop}

/-- From states in `R`, what a fill comes to on one side it comes to on the other. -/
structure Alike (R : σ → τ → Prop) : Prop where
  /-- There is the same output. -/
  output : ∀ {s t}, R s t → output t = output s
  /-- Both have ended, or neither. -/
  ended : ∀ {s t}, R s t → ended t = ended s
  /-- States with the same other output are in `R` too. -/
  holding : ∀ {s t}, R s t → ∀ o, R (holding s o) (holding t o)
  /-- A fill comes to the same. -/
  fill : ∀ {s t}, R s t → ∀ turns, Follows R (fill turns s) fun turns => fill turns t

theorem Alike.ready (h : Alike R) {s : σ} {t : τ} (hst : R s t) : ready t = ready s := by
  unfold Pull.ready
  rw [h.output hst, h.ended hst]

/-- Preparing output that begins with a fill. -/
theorem settles_prepare_of_fill {s s' : σ} {x : Except (Halt Error) Unit × σ}
    (hready : Pull.ready s = false) (hfill : Settles (fun turns => Pull.fill turns s) (.ok (), s'))
    (hprepare : Settles (fun turns => prepare turns s') x) :
    Settles (fun turns => prepare turns s) x := by
  refine Settles.of_succ (hfill.imp₂ hprepare fun turns h h' => ?_)
  rw [prepare_of_fill hready h, h']

theorem settles_prepare_of_failure {s s' : σ} {x : Halt Error} (hready : Pull.ready s = false)
    (hfill : Settles (fun turns => Pull.fill turns s) (.error x, s')) :
    Settles (fun turns => prepare turns s) (.error x, s') :=
  Settles.of_succ (hfill.imp fun _ h => prepare_of_failure hready h)

theorem settles_prepare_of_ready {s : σ} (hready : Pull.ready s = true) :
    Settles (fun turns => prepare turns s) (.ok (), s) :=
  Settles.of_succ ⟨0, fun _ _ => prepare_of_ready hready⟩

theorem Alike.prepare (h : Alike R) : ∀ (turns : Nat) {s : σ} {t : τ}, R s t →
    Follows R (prepare turns s) fun turns => Pull.prepare turns t := by
  intro turns
  induction turns with
  | zero => exact fun _ => Follows.outOfTurns
  | succ turns ih =>
      intro s t hst
      have hready := h.ready hst
      cases hs : Pull.ready s with
      | true =>
          rw [prepare_of_ready hs]
          rw [hs] at hready
          exact Follows.intro (.ok ()) (settles_prepare_of_ready hready) hst
      | false =>
          rw [hs] at hready
          obtain ⟨result, s₁, hfill⟩ : ∃ result s₁, Pull.fill turns s = (result, s₁) := ⟨_, _, rfl⟩
          have hfollows := h.fill hst turns
          cases result with
          | ok =>
              rw [prepare_of_fill hs hfill]
              obtain ⟨t₁, hset, h₁⟩ := hfollows (.ok ()) s₁ hfill
              intro answer s' hw
              obtain ⟨t', hset', h'⟩ := ih h₁ answer s' hw
              exact ⟨t', settles_prepare_of_fill hready hset hset', h'⟩
          | error x =>
              rw [prepare_of_failure hs hfill]
              cases x with
              | outOfTurns => exact Follows.outOfTurns
              | failed e =>
                  obtain ⟨t₁, hset, h₁⟩ := hfollows (.error e) s₁ hfill
                  exact Follows.intro (.error e)
                    (settles_prepare_of_failure hready hset) h₁

/-- What a read comes to that finds room, once output has been prepared. -/
def readAfter (room : Nat) (s : σ) : Except Error Unit → Except (Halt IoError) ByteArray × σ
  | .error e => (.error (.failed e.toIoError), s)
  | .ok () => (.ok ((Pull.output s).take room).toBytes, serve room s)

theorem read_of_prepare {s s' : σ} {turns room : Nat} (hroom : room ≠ 0)
    {answer : Except Error Unit} (h : prepare turns s = (answered answer, s')) :
    read turns room s = readAfter room s' answer := by
  rw [read, if_neg hroom, h]
  cases answer <;> rfl

theorem settles_read_of_prepare {s s' : σ} {room : Nat} (hroom : room ≠ 0)
    {answer : Except Error Unit}
    (hprepare : Settles (fun turns => prepare turns s) (answered answer, s')) :
    Settles (fun turns => read turns room s) (readAfter room s' answer) :=
  hprepare.imp fun _ h => read_of_prepare hroom h

/-- A read that finds room is answered only after output has been prepared. -/
theorem exists_prepare_of_read {s u : σ} {turns room : Nat} (hroom : room ≠ 0)
    {answer : Except IoError ByteArray} (h : read turns room s = (answered answer, u)) :
    ∃ told s₁, prepare turns s = (answered told, s₁)
      ∧ readAfter room s₁ told = (answered answer, u) := by
  obtain ⟨result, s₁, hprepare⟩ : ∃ result s₁, prepare turns s = (result, s₁) := ⟨_, _, rfl⟩
  obtain ⟨told, rfl⟩ : ∃ told, result = answered told := exists_answered fun hcut => by
    rw [read, if_neg hroom, hprepare, hcut] at h
    exact answered_ne answer (Prod.mk.inj h).1.symm
  exact ⟨told, s₁, hprepare, (read_of_prepare hroom hprepare).symm.trans h⟩

/-- **A read comes to the same** from readers that are alike. -/
theorem Alike.read (h : Alike R) (turns room : Nat) {s : σ} {t : τ} (hst : R s t) :
    Follows R (read turns room s) fun turns => Pull.read turns room t := by
  by_cases hroom : room = 0
  · subst hroom
    exact Follows.intro (.ok ByteArray.empty) ⟨0, fun _ _ => rfl⟩ hst
  · intro answer s' hread
    obtain ⟨told, s₁, hprepare, hafter⟩ := exists_prepare_of_read hroom hread
    obtain ⟨t₁, hset, h₁⟩ := h.prepare turns hst told s₁ hprepare
    have hset' := settles_read_of_prepare hroom hset
    cases told with
    | error e =>
        obtain ⟨hanswer, rfl⟩ := Prod.mk.inj hafter
        exact ⟨t₁, hanswer ▸ hset', h₁⟩
    | ok =>
        obtain ⟨hanswer, rfl⟩ := Prod.mk.inj hafter
        refine ⟨serve room t₁, ?_, ?_⟩
        · rw [← hanswer, ← h.output h₁]
          exact hset'
        · rw [serve, serve, h.output h₁]
          exact h.holding h₁ _

/-- **Readers that are alike hold the same dialogues.** -/
theorem Alike.dialogue (h : Alike R) : HoldsAlike R Pull.read Pull.read :=
  holdsAlike_of_follows fun turns room _ _ hst => h.read turns room hst

end Pull

/-! ## What a reader does between refills -/

/-- What a reader does besides refilling its source. -/
class Fetch (γ : Type) where
  /-- The bytes that were read and not pushed. -/
  source : γ → SourceBuffer
  /-- The state with another source. -/
  refit : γ → SourceBuffer → γ
  /-- The output that nobody has read. -/
  output : γ → Slice
  /-- The state with other output. -/
  holding : γ → Slice → γ
  /-- Whether no more output can be made. -/
  ended : γ → Bool
  /-- Whether the next piece of output needs a refill first. -/
  needs : γ → Bool
  /-- What comes after a refill. -/
  proceed : Refill → γ → Except (Halt Error) Unit × γ
  /-- Makes the next piece of output without a refill. -/
  work : γ → Except (Halt Error) Unit × γ
  output_holding : ∀ g o, output (holding g o) = o
  holding_output : ∀ g, holding g (output g) = g
  holding_holding : ∀ g o o', holding (holding g o) o' = holding g o'
  ended_holding : ∀ g o, ended (holding g o) = ended g
  source_refit : ∀ g b, source (refit g b) = b
  refit_source : ∀ g, refit g (source g) = g
  refit_refit : ∀ g b b', refit (refit g b) b' = refit g b'
  output_refit : ∀ g b, output (refit g b) = output g
  ended_refit : ∀ g b, ended (refit g b) = ended g
  /-- Moving the pending bytes to the front makes no difference to what is needed. -/
  needs_compact : ∀ g, needs (refit g (source g).compact) = needs g

namespace Fetch

variable {γ ρ : Type} [Fetch γ] [Reader ρ]

attribute [simp] source_refit refit_source refit_refit output_refit ended_refit needs_compact

/-- What is made of a refill that left this source. -/
def taken (g : γ) (b : SourceBuffer) : Except (Halt Error) Refill → Except (Halt Error) Unit × γ
  | .ok x => proceed x (refit g b)
  | .error h => (.error h, refit g b)

/-- Where an answer is made of a refill, the refill was answered. -/
theorem exists_answered_of_taken {g : γ} {b : SourceBuffer} {result : Except (Halt Error) Refill}
    {answer : Except Error Unit} (h : (taken g b result).1 = answered answer) :
    ∃ told, result = answered told :=
  exists_answered fun hcut => by
    rw [hcut] at h
    exact answered_ne answer h.symm

/-- What is made of a refill, beside the reader that it left. -/
def after (g : γ) (x : Except (Halt Error) Refill × SourceBuffer × ρ) :
    Except (Halt Error) Unit × (γ × ρ) :=
  ((taken g x.2.1 x.1).1, ((taken g x.2.1 x.1).2, x.2.2))

/-- Makes the next piece of output, from a reader behind. -/
def fill (turns : Nat) (s : γ × ρ) : Except (Halt Error) Unit × (γ × ρ) :=
  if needs s.1 then after s.1 ((source s.1).refill turns s.2)
  else ((work s.1).1, ((work s.1).2, s.2))

omit [Reader ρ] in
/-- Which source there was before the refill makes no difference. -/
theorem after_refit (g : γ) (b : SourceBuffer) (x : Except (Halt Error) Refill × SourceBuffer × ρ) :
    after (refit g b) x = after g x := by
  obtain ⟨result, b', r⟩ := x
  cases result <;> simp only [after, taken, refit_refit]

theorem fill_of_needs {g : γ} (h : needs g = true) (turns : Nat) (r : ρ) :
    fill turns (g, r) = after g ((source g).refill turns r) := if_pos h

theorem fill_of_works {g : γ} (h : needs g = false) (turns : Nat) (r : ρ) :
    fill turns (g, r) = ((work g).1, ((work g).2, r)) := if_neg (ne_true_of_eq_false h)

theorem fill_stands (turns : Nat) (s : γ × ρ) : Stands (fill turns s) (fill (turns + 1) s) := by
  intro h
  unfold fill at h ⊢
  cases hneeds : needs s.1 with
  | true =>
      have hrefill : ¬ Cut ((source s.1).refill turns s.2) := by
        intro hcut
        obtain ⟨rest, hr⟩ := hcut.eq_error
        simp [hneeds, hr, Cut, after, taken] at h
      simp only [if_true, SourceBuffer.refill_stands turns _ _ hrefill]
  | false => rfl

instance : Pull (γ × ρ) where
  output s := output s.1
  holding s o := (holding s.1 o, s.2)
  ended s := ended s.1
  fill := fill
  output_holding _ _ := output_holding _ _
  holding_output s := Prod.ext (holding_output s.1) rfl
  holding_holding _ _ _ := Prod.ext (holding_holding _ _ _) rfl
  ended_holding _ _ := ended_holding _ _
  fill_stands := fill_stands

/-- The same state, beside readers that are alike. -/
def Beside {ρ' : Type} (same : ρ → ρ' → Prop) (s : γ × ρ) (t : γ × ρ') : Prop :=
  t.1 = s.1 ∧ same s.2 t.2

/-- **A reader in front of readers that are alike.** -/
theorem alike_beside {ρ' : Type} [Reader ρ'] {same : ρ → ρ' → Prop} (hreads : ReadsAlike same) :
    Pull.Alike (Beside (γ := γ) same) where
  output h := congrArg output h.1
  ended h := congrArg ended h.1
  holding h o := ⟨congrArg (holding · o) h.1, h.2⟩
  fill := by
    rintro ⟨_, r⟩ ⟨g, r'⟩ ⟨rfl, hsame⟩ turns answer s' hfill
    change Fetch.fill turns (g, r) = _ at hfill
    change ∃ t', Settles (fun turns => Fetch.fill turns (g, r')) _ ∧ _
    cases hneeds : needs g with
    | false =>
        rw [fill_of_works hneeds] at hfill
        obtain ⟨hresult, rfl⟩ := Prod.mk.inj hfill
        exact ⟨((work g).2, r'), ⟨0, fun turns _ => (fill_of_works hneeds turns r').trans
          (Prod.ext hresult rfl)⟩, rfl, hsame⟩
    | true =>
        rw [fill_of_needs hneeds] at hfill
        simp only [fill_of_needs hneeds]
        obtain ⟨result, b, r₁, hrefill⟩ :
            ∃ result b r₁, (source g).refill turns r = (result, b, r₁) := ⟨_, _, _, rfl⟩
        rw [hrefill] at hfill
        obtain ⟨hresult, rfl⟩ := Prod.mk.inj hfill
        obtain ⟨told, rfl⟩ := exists_answered_of_taken hresult
        obtain ⟨r₁', hset, hsame₁⟩ := SourceBuffer.refill_alike hreads hsame hrefill
        refine ⟨((taken g b (answered told)).2, r₁'), hset.imp fun turns hturns => ?_, rfl, hsame₁⟩
        rw [hturns]
        exact Prod.ext hresult rfl

end Fetch

/-! ## The two readers -/

theorem SourceBuffer.isEmpty_pending_compact (b : SourceBuffer) :
    b.compact.pending.isEmpty = b.pending.isEmpty := by
  rw [Bool.eq_iff_iff, isEmpty_pending_iff, isEmpty_pending_iff, toList_pending_compact]

/-- A map that changes nothing about output, end and fills. -/
structure Pull.Commutes {σ σ' : Type} [Pull σ] [Pull σ'] (f : σ → σ') : Prop where
  /-- There is the same output. -/
  output : ∀ s, Pull.output (f s) = Pull.output s
  /-- Both have ended, or neither. -/
  ended : ∀ s, Pull.ended (f s) = Pull.ended s
  /-- Other output is put in on both sides. -/
  holding : ∀ s o, Pull.holding (f s) o = f (Pull.holding s o)
  /-- A fill does the same. -/
  fill : ∀ turns s, Pull.fill turns (f s) = ((Pull.fill turns s).1, f (Pull.fill turns s).2)

section Commutes

variable {σ τ σ' τ' : Type} [Pull σ] [Pull τ] [Pull σ'] [Pull τ'] {f : σ → σ'} {f' : τ → τ'}

theorem Pull.Commutes.ready (h : Pull.Commutes f) (s : σ) : Pull.ready (f s) = Pull.ready s := by
  unfold Pull.ready
  rw [h.output, h.ended]

/-- A fill that settles on one side settles on the other. -/
theorem Pull.Commutes.settles_fill (h : Pull.Commutes f) {s s' : σ}
    {result : Except (Halt Error) Unit}
    (hfill : Settles (fun turns => Pull.fill turns s) (result, s')) :
    Settles (fun turns => Pull.fill turns (f s)) (result, f s') :=
  hfill.imp fun turns hturns => by rw [h.fill, hturns]

/-- What readers that are alike are made into is alike. -/
theorem Pull.Alike.along {R : σ → τ → Prop} {R' : σ' → τ' → Prop} (h : Pull.Alike R)
    (hf : Pull.Commutes f) (hf' : Pull.Commutes f')
    (hR : ∀ a b, R' a b ↔ ∃ s t, R s t ∧ f s = a ∧ f' t = b) : Pull.Alike R' where
  output hab := by
    obtain ⟨s, t, hst, rfl, rfl⟩ := (hR _ _).mp hab
    rw [hf.output, hf'.output, h.output hst]
  ended hab := by
    obtain ⟨s, t, hst, rfl, rfl⟩ := (hR _ _).mp hab
    rw [hf.ended, hf'.ended, h.ended hst]
  holding hab o := by
    obtain ⟨s, t, hst, rfl, rfl⟩ := (hR _ _).mp hab
    exact (hR _ _).mpr ⟨_, _, h.holding hst o, (hf.holding s o).symm, (hf'.holding t o).symm⟩
  fill hab turns answer a' hfill := by
    obtain ⟨s, t, hst, rfl, rfl⟩ := (hR _ _).mp hab
    rw [hf.fill] at hfill
    obtain ⟨hanswer, rfl⟩ := Prod.mk.inj hfill
    obtain ⟨t', hset, h'⟩ := h.fill hst turns answer _ (Prod.ext hanswer rfl)
    exact ⟨f' t', hf'.settles_fill hset, (hR _ _).mpr ⟨_, t', h', rfl, rfl⟩⟩

end Commutes

namespace CompressingReader

variable {κ ρ : Type} [Codec κ]

instance : Fetch (CompressingReader κ Unit) where
  source := source
  refit g b := { g with source := b }
  output := output
  holding g o := { g with output := o }
  ended g := g.session.isFinished
  needs g := !g.finishing && (g.source.pending.isEmpty && !g.destinationFull)
  proceed
    | .finished, g => (.ok (), { g with finishing := true })
    | .read _, g => advance g
  work g :=
    if g.finishing then
      match g with
      | ⟨reader, source, session, output, full, finishing⟩ =>
        match session.finish with
        | (.ok _, session) => collect ⟨reader, source, session, output, full, finishing⟩
        | (.error e, session) =>
          (.error (.failed e), ⟨reader, source, session, output, full, finishing⟩)
    else advance g
  output_holding _ _ := rfl
  holding_output _ := rfl
  holding_holding _ _ _ := rfl
  ended_holding _ _ := rfl
  source_refit _ _ := rfl
  refit_source _ := rfl
  refit_refit _ _ _ := rfl
  output_refit _ _ := rfl
  ended_refit _ _ := rfl
  needs_compact g := by
    dsimp only
    rw [SourceBuffer.isEmpty_pending_compact]

/-- The reader that has this state, and this reader behind it. -/
def join (s : CompressingReader κ Unit × ρ) : CompressingReader κ ρ :=
  ⟨s.2, s.1.source, s.1.session, s.1.output, s.1.destinationFull, s.1.finishing⟩

/-- The state of a reader, and the reader behind it. -/
def apart (c : CompressingReader κ ρ) : CompressingReader κ Unit × ρ :=
  (⟨(), c.source, c.session, c.output, c.destinationFull, c.finishing⟩, c.reader)

omit [Codec κ] in
@[simp] theorem join_apart (c : CompressingReader κ ρ) : join c.apart = c := rfl

/-- Two readers that differ in the readers behind them alone, which are alike. -/
inductive Beside {ρ' : Type} (same : ρ → ρ' → Prop) :
    CompressingReader κ ρ → CompressingReader κ ρ' → Prop where
  | mk {reader : ρ} {reader' : ρ'} {source : SourceBuffer} {session : Session κ} {output : Slice}
      {full finishing : Bool} : same reader reader' →
      Beside same ⟨reader, source, session, output, full, finishing⟩
        ⟨reader', source, session, output, full, finishing⟩

omit [Codec κ] in
theorem beside_iff {ρ' : Type} {same : ρ → ρ' → Prop} (c : CompressingReader κ ρ)
    (c' : CompressingReader κ ρ') :
    Beside same c c' ↔ ∃ s t, Fetch.Beside same s t ∧ join s = c ∧ join t = c' := by
  constructor
  · intro h
    refine ⟨c.apart, c'.apart, ?_, rfl, rfl⟩
    obtain ⟨hsame⟩ := h
    exact ⟨rfl, hsame⟩
  · rintro ⟨⟨g, r⟩, ⟨_, r'⟩, ⟨rfl, hsame⟩, rfl, rfl⟩
    exact .mk hsame

omit [Codec κ] in
theorem collect_join (g : CompressingReader κ Unit) (r : ρ) :
    (join (g, r)).collect = (g.collect.1, join (g.collect.2, r)) := by
  obtain ⟨_, source, session, output, full, finishing⟩ := g
  cases hdrain : session.drain with
  | mk result session' => cases result <;> simp only [join, collect, hdrain]

theorem advance_join (g : CompressingReader κ Unit) (r : ρ) :
    (join (g, r)).advance = (g.advance.1, join (g.advance.2, r)) := by
  obtain ⟨_, source, session, output, full, finishing⟩ := g
  cases hpush : session.push source.pending with
  | mk result session' =>
      cases result with
      | error e => simp only [join, advance, hpush]
      | ok p =>
          simp only [join, advance, hpush]
          exact collect_join ⟨(), source.consume p.consumed, session', output, p.full, finishing⟩ r

theorem fill_join [Reader ρ] (turns : Nat) (s : CompressingReader κ Unit × ρ) :
    (join s).fill turns = ((Pull.fill turns s).1, join (Pull.fill turns s).2) := by
  obtain ⟨⟨_, source, session, output, full, finishing⟩, r⟩ := s
  cases finishing with
  | true =>
      simp only [fill, Pull.fill, Fetch.fill, Fetch.needs, Fetch.work, join, if_true, Bool.not_true,
        Bool.false_and, Bool.false_eq_true, if_false]
      cases hfinish : session.finish with
      | mk result session' =>
          cases result with
          | error e => rfl
          | ok more => exact collect_join ⟨(), source, session', output, full, true⟩ r
  | false =>
      cases hneeds : (source.pending.isEmpty && !full) with
      | false =>
          simp only [fill, Pull.fill, Fetch.fill, Fetch.needs, Fetch.work, join, hneeds,
            Bool.not_false, Bool.true_and, Bool.false_eq_true, if_false]
          exact advance_join ⟨(), source, session, output, full, false⟩ r
      | true =>
          cases hrefill : source.refill turns r with
          | mk result rest =>
              obtain ⟨source', r'⟩ := rest
              simp only [fill, Pull.fill, Fetch.fill, Fetch.after, Fetch.taken, Fetch.needs,
                Fetch.source, Fetch.refit, Fetch.proceed, join, hneeds, hrefill, Bool.not_false,
                Bool.true_and, if_true, Bool.false_eq_true, if_false]
              cases result with
              | error x => rfl
              | ok refilled =>
                  cases refilled with
                  | finished => rfl
                  | read n => exact advance_join ⟨(), source', session, output, full, false⟩ r'

/-- **A compressing reader is its state beside the reader behind it.** -/
theorem commutes_join [Reader ρ] :
    Pull.Commutes (join : CompressingReader κ Unit × ρ → CompressingReader κ ρ) :=
  ⟨fun _ => rfl, fun _ => rfl, fun _ _ => rfl, fill_join⟩

/-- **Compressing readers in front of readers that are alike.** -/
theorem alike_beside {ρ' : Type} [Reader ρ] [Reader ρ'] {same : ρ → ρ' → Prop}
    (hreads : ReadsAlike same) : Pull.Alike (Beside (κ := κ) same) :=
  (Fetch.alike_beside hreads).along commutes_join commutes_join beside_iff

end CompressingReader

namespace DecompressingReader

variable {κ ρ : Type} [Codec κ]

instance : Fetch (DecompressingReader κ Unit) where
  source := source
  refit g b := { g with source := b }
  output := output
  holding g o := { g with output := o }
  ended := finished
  needs := needsInput
  proceed
    | .finished, g => conclude g
    | .read _, g => advance g
  work := advance
  output_holding _ _ := rfl
  holding_output _ := rfl
  holding_holding _ _ _ := rfl
  ended_holding _ _ := rfl
  source_refit _ _ := rfl
  refit_source _ := rfl
  refit_refit _ _ _ := rfl
  output_refit _ _ := rfl
  ended_refit _ _ := rfl
  needs_compact g := by
    unfold needsInput
    dsimp only
    rw [SourceBuffer.isEmpty_pending_compact]

/-- The reader that has this state, and this reader behind it. -/
def join (s : DecompressingReader κ Unit × ρ) : DecompressingReader κ ρ :=
  ⟨s.2, s.1.source, s.1.session, s.1.output, s.1.destinationFull, s.1.stalled, s.1.finished⟩

/-- The state of a reader, and the reader behind it. -/
def apart (d : DecompressingReader κ ρ) : DecompressingReader κ Unit × ρ :=
  (⟨(), d.source, d.session, d.output, d.destinationFull, d.stalled, d.finished⟩, d.reader)

omit [Codec κ] in
@[simp] theorem join_apart (d : DecompressingReader κ ρ) : join d.apart = d := rfl

/-- Two readers that differ in the readers behind them alone, which are alike. -/
inductive Beside {ρ' : Type} (same : ρ → ρ' → Prop) :
    DecompressingReader κ ρ → DecompressingReader κ ρ' → Prop where
  | mk {reader : ρ} {reader' : ρ'} {source : SourceBuffer} {session : Session κ} {output : Slice}
      {full stalled finished : Bool} : same reader reader' →
      Beside same ⟨reader, source, session, output, full, stalled, finished⟩
        ⟨reader', source, session, output, full, stalled, finished⟩

omit [Codec κ] in
theorem beside_iff {ρ' : Type} {same : ρ → ρ' → Prop} (d : DecompressingReader κ ρ)
    (d' : DecompressingReader κ ρ') :
    Beside same d d' ↔ ∃ s t, Fetch.Beside same s t ∧ join s = d ∧ join t = d' := by
  constructor
  · intro h
    refine ⟨d.apart, d'.apart, ?_, rfl, rfl⟩
    obtain ⟨hsame⟩ := h
    exact ⟨rfl, hsame⟩
  · rintro ⟨⟨g, r⟩, ⟨_, r'⟩, ⟨rfl, hsame⟩, rfl, rfl⟩
    exact .mk hsame

theorem advance_join (g : DecompressingReader κ Unit) (r : ρ) :
    (join (g, r)).advance = (g.advance.1, join (g.advance.2, r)) := by
  obtain ⟨_, source, session, output, full, stalled, finished⟩ := g
  cases hpush : session.push source.pending with
  | mk result session' =>
      cases result with
      | error e => simp only [join, advance, hpush]
      | ok p =>
          cases hdrain : session'.drain with
          | mk drained session'' => cases drained <;> simp only [join, advance, hpush, hdrain]

theorem conclude_join (g : DecompressingReader κ Unit) (r : ρ) :
    (join (g, r)).conclude = (g.conclude.1, join (g.conclude.2, r)) := by
  obtain ⟨_, source, session, output, full, stalled, finished⟩ := g
  cases hempty : source.pending.isEmpty with
  | false => simp only [join, conclude, hempty, Bool.false_eq_true, if_false]
  | true =>
      cases hend : session.endOfInput <;> simp only [join, conclude, hempty, hend, if_true]

theorem fill_join [Reader ρ] (turns : Nat) (s : DecompressingReader κ Unit × ρ) :
    (join s).fill turns = ((Pull.fill turns s).1, join (Pull.fill turns s).2) := by
  obtain ⟨g, r⟩ := s
  have hneeds' : needsInput (join (g, r)) = needsInput g := rfl
  unfold fill
  rw [hneeds']
  simp only [Pull.fill, Fetch.fill, Fetch.needs]
  cases hneeds : needsInput g with
  | false =>
      simp only [Bool.false_eq_true, if_false]
      exact advance_join g r
  | true =>
      obtain ⟨_, source, session, output, full, stalled, finished⟩ := g
      simp only [if_true, join, Fetch.after, Fetch.taken, Fetch.source, Fetch.refit, Fetch.proceed]
      cases hrefill : source.refill turns r with
      | mk result rest =>
          obtain ⟨source', r'⟩ := rest
          cases result with
          | error x => rfl
          | ok refilled =>
              cases refilled with
              | finished =>
                  exact conclude_join ⟨(), source', session, output, full, stalled, finished⟩ r'
              | read n =>
                  exact advance_join ⟨(), source', session, output, full, stalled, finished⟩ r'

/-- **A decompressing reader is its state beside the reader behind it.** -/
theorem commutes_join [Reader ρ] :
    Pull.Commutes (join : DecompressingReader κ Unit × ρ → DecompressingReader κ ρ) :=
  ⟨fun _ => rfl, fun _ => rfl, fun _ _ => rfl, fill_join⟩

/-- **Decompressing readers in front of readers that are alike.** -/
theorem alike_beside {ρ' : Type} [Reader ρ] [Reader ρ'] {same : ρ → ρ' → Prop}
    (hreads : ReadsAlike same) : Pull.Alike (Beside (κ := κ) same) :=
  (Fetch.alike_beside hreads).along commutes_join commutes_join beside_iff

end DecompressingReader

end Zstandard
