import Zstandard.Proofs.Callers
import Zstandard.Proofs.Turns

/-!
# Operations and what they answer

The caller of a driver asks for one operation after another and is told what came of each. An
operation is given turns enough, so it answers with a value or a failure; after a failure the caller
may go on. `Dialogue` keeps what was asked and answered. What every operation keeps holds after any
dialogue (`Dialogue.keeps`), and two drivers that answer alike, operation by operation, hold the
same dialogues (`Dialogue.matched`).
-/

namespace Zstandard

section Dialogue

variable {ο α β ε σ τ : Type} {perform : (turns : Nat) → ο → σ → Except (Halt ε) α × σ}
  {perform' : (turns : Nat) → ο → τ → Except (Halt ε) α × τ}

/-- An answer as the outcome of an operation that did not run out of turns. -/
def answered (answer : Except ε α) : Except (Halt ε) α := answer.mapError .failed

@[simp] theorem answered_ok (a : α) : answered (.ok a : Except ε α) = .ok a := rfl

@[simp] theorem answered_error (e : ε) :
    answered (.error e : Except ε α) = .error (.failed e) := rfl

theorem answered_ne (answer : Except ε α) : answered answer ≠ .error .outOfTurns := by
  cases answer <;> simp

theorem answered_inj {a b : Except ε α} (h : answered a = answered b) : a = b := by
  cases a <;> cases b <;> cases h <;> rfl

theorem exists_answered {x : Except (Halt ε) α} (h : x ≠ .error .outOfTurns) :
    ∃ answer : Except ε α, x = answered answer := by
  cases x with
  | ok a => exact ⟨.ok a, rfl⟩
  | error x =>
      cases x with
      | failed e => exact ⟨.error e, rfl⟩
      | outOfTurns => exact absurd rfl h

/-- What is made into an answer is one. -/
theorem exists_answered_of_map {x : Except (Halt ε) α} {f : α → β} {answer : Except ε β}
    (h : x.map f = answered answer) : ∃ told, x = answered told :=
  exists_answered fun hcut => by
    rw [hcut] at h
    exact answered_ne answer h.symm

/-- Operations one after another, each with its answer, lead from `first` to a state. -/
inductive Dialogue (perform : (turns : Nat) → ο → σ → Except (Halt ε) α × σ) (first : σ) :
    List (ο × Except ε α) → σ → Prop where
  | nil : Dialogue perform first [] first
  | snoc {said : List (ο × Except ε α)} {s s' : σ} {operation : ο} {answer : Except ε α} :
      Dialogue perform first said s → (turns : Nat) →
      perform turns operation s = (answered answer, s') →
      Dialogue perform first (said ++ [(operation, answer)]) s'

/-- What every operation keeps, a dialogue keeps. -/
theorem Dialogue.keeps {I : σ → Prop} {first s : σ} {said : List (ο × Except ε α)}
    (hkeep : ∀ {turns operation answer s s'}, I s →
      perform turns operation s = (answered answer, s') → I s')
    (h : Dialogue perform first said s) (hfirst : I first) : I s := by
  induction h with
  | nil => exact hfirst
  | snoc _ turns hop ih => exact hkeep ih hop

/-- **Drivers that answer alike hold the same dialogues.** -/
theorem Dialogue.matched {R : σ → τ → Prop} {first s : σ} {first' : τ}
    {said : List (ο × Except ε α)}
    (hmatch : ∀ {turns operation answer s s' t}, R s t →
      perform turns operation s = (answered answer, s') →
      ∃ turns' t', perform' turns' operation t = (answered answer, t') ∧ R s' t')
    (h : Dialogue perform first said s) (hfirst : R first first') :
    ∃ t, Dialogue perform' first' said t ∧ R s t := by
  induction h with
  | nil => exact ⟨first', .nil, hfirst⟩
  | snoc _ turns hop ih =>
      obtain ⟨t, hdialogue, hst⟩ := ih
      obtain ⟨turns', t', hop', hst'⟩ := hmatch hst hop
      exact ⟨t', hdialogue.snoc turns' hop', hst'⟩

end Dialogue

/-! ## Callers of writers -/

/-- What a writer answers to a request. -/
inductive Reply where
  | took (size : Nat)
  | flushed
  deriving DecidableEq

/-- Serves one request. -/
def CompressingWriter.serve {κ ω : Type} [Codec κ] [Writer ω] (turns : Nat) (request : Request)
    (c : CompressingWriter κ ω) : Except (Halt IoError) Reply × CompressingWriter κ ω :=
  match request with
  | .write part =>
    match c.write turns part with
    | (result, c) => (result.map .took, c)
  | .flush =>
    match c.flush turns with
    | (result, c) => (result.map fun _ => .flushed, c)

/-- Serves one request. -/
def DecompressingWriter.serve {κ ω : Type} [Codec κ] [Writer ω] (turns : Nat) (request : Request)
    (d : DecompressingWriter κ ω) : Except (Halt IoError) Reply × DecompressingWriter κ ω :=
  match request with
  | .write part =>
    match d.write turns part with
    | (result, d) => (result.map .took, d)
  | .flush =>
    match d.flush with
    | (result, d) => ((result.mapError .failed).map fun _ => .flushed, d)

end Zstandard
