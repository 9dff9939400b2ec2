import Zstandard.Endpoint

/-!
# Outcomes of work, and runs with turns enough

Work on a driver ends with a value or halts, and leaves the driver changed either way. `Ensures`
says what holds of the driver in each of the two cases; it is followed through a sequence of moves
by `Ensures.bind`.

A run is given a number of turns. `Settles` says that from some number on the turns make no
difference: the run has come to its end. This is how a statement says that a driver returns.
-/

namespace Zstandard

section Moves

variable {ε σ α β : Type} {x : EStateM ε σ α} {s s' : σ}

/-- A move that succeeds leaves the rest to be done. -/
theorem bind_of_ok {a : α} (h : x s = .ok a s') (k : α → EStateM ε σ β) :
    (x >>= k) s = k a s' := by
  show EStateM.bind x k s = k a s'
  rw [EStateM.bind, h]

/-- A move that halts leaves nothing to be done. -/
theorem bind_of_error {e : ε} (h : x s = .error e s') (k : α → EStateM ε σ β) :
    (x >>= k) s = .error e s' := by
  show EStateM.bind x k s = .error e s'
  rw [EStateM.bind, h]

theorem get_bind (k : σ → EStateM ε σ β) (s : σ) : (get >>= k) s = k s s := rfl

theorem modify_ok (f : σ → σ) (s : σ) :
    (modify f : EStateM ε σ PUnit) s = .ok ⟨⟩ (f s) := rfl

end Moves

section Ensures

variable {ε σ α β : Type}

/-- Each outcome of some work meets its condition: `Q` if it gives a value, `E` if it halts. -/
def Ensures (work : EStateM ε σ α) (s : σ) (Q : α → σ → Prop) (E : ε → σ → Prop) : Prop :=
  match work s with
  | .ok a s' => Q a s'
  | .error e s' => E e s'

theorem Ensures.of_ok {work : EStateM ε σ α} {s s' : σ} {a : α} {Q : α → σ → Prop}
    {E : ε → σ → Prop} (h : Ensures work s Q E) (hw : work s = .ok a s') : Q a s' := by
  unfold Ensures at h
  rwa [hw] at h

theorem Ensures.of_error {work : EStateM ε σ α} {s s' : σ} {e : ε} {Q : α → σ → Prop}
    {E : ε → σ → Prop} (h : Ensures work s Q E) (hw : work s = .error e s') : E e s' := by
  unfold Ensures at h
  rwa [hw] at h

theorem Ensures.intro {work : EStateM ε σ α} {s : σ} {Q : α → σ → Prop} {E : ε → σ → Prop}
    (hok : ∀ a s', work s = .ok a s' → Q a s') (herror : ∀ e s', work s = .error e s' → E e s') :
    Ensures work s Q E := by
  unfold Ensures
  split
  · next h => exact hok _ _ h
  · next h => exact herror _ _ h

theorem Ensures.mono {work : EStateM ε σ α} {s : σ} {Q Q' : α → σ → Prop} {E E' : ε → σ → Prop}
    (h : Ensures work s Q E) (hQ : ∀ a s', Q a s' → Q' a s') (hE : ∀ e s', E e s' → E' e s') :
    Ensures work s Q' E' :=
  Ensures.intro (fun a s' hw => hQ a s' (h.of_ok hw)) (fun e s' hw => hE e s' (h.of_error hw))

theorem Ensures.and {work : EStateM ε σ α} {s : σ} {Q Q' : α → σ → Prop} {E E' : ε → σ → Prop}
    (h : Ensures work s Q E) (h' : Ensures work s Q' E') :
    Ensures work s (fun a s' => Q a s' ∧ Q' a s') (fun e s' => E e s' ∧ E' e s') :=
  Ensures.intro (fun _ _ hw => ⟨h.of_ok hw, h'.of_ok hw⟩)
    (fun _ _ hw => ⟨h.of_error hw, h'.of_error hw⟩)

theorem Ensures.pure {s : σ} {a : α} {Q : α → σ → Prop} {E : ε → σ → Prop} (h : Q a s) :
    Ensures (Pure.pure a : EStateM ε σ α) s Q E := h

theorem Ensures.throw {s : σ} {e : ε} {Q : α → σ → Prop} {E : ε → σ → Prop} (h : E e s) :
    Ensures (MonadExcept.throw e : EStateM ε σ α) s Q E := h

/-- Work after work: what the first leaves is where the second starts. -/
theorem Ensures.bind {x : EStateM ε σ α} {k : α → EStateM ε σ β} {s : σ} {R : α → σ → Prop}
    {Q : β → σ → Prop} {E : ε → σ → Prop} (hx : Ensures x s R E)
    (hk : ∀ a s', R a s' → Ensures (k a) s' Q E) : Ensures (x >>= k) s Q E := by
  unfold Ensures at hx ⊢
  split at hx
  · next a s' hw => rw [bind_of_ok hw]; exact hk a s' hx
  · next e s' hw => rw [bind_of_error hw]; exact hx

end Ensures

section Settles

variable {ε σ α β : Type}

/-- From some number of turns on, a run comes to the same end. -/
def Settles (run : Nat → α) (result : α) : Prop := ∃ n, ∀ turns, n ≤ turns → run turns = result

theorem Settles.const {a : α} : Settles (fun _ => a) a := ⟨0, fun _ _ => rfl⟩

/-- A run that has settled comes to that end with some number of turns. -/
theorem Settles.reached {run : Nat → α} {a : α} (h : Settles run a) : ∃ turns, run turns = a := by
  obtain ⟨n, hn⟩ := h
  exact ⟨n, hn n (Nat.le_refl n)⟩

/-- A run settles in one place. -/
theorem Settles.unique {run : Nat → α} {x y : α} (h : Settles run x)
    (h' : Settles run y) : x = y := by
  obtain ⟨n, hn⟩ := h
  obtain ⟨m, hm⟩ := h'
  rw [← hn (max n m) (Nat.le_max_left n m), hm (max n m) (Nat.le_max_right n m)]

/-- One turn more or less makes no difference to where a run settles. -/
theorem Settles.of_succ {run : Nat → α} {a : α} (h : Settles (fun turns => run (turns + 1)) a) :
    Settles run a := by
  obtain ⟨n, hn⟩ := h
  refine ⟨n + 1, fun turns ht => ?_⟩
  obtain ⟨m, rfl⟩ : ∃ m, turns = m + 1 := ⟨turns - 1, by omega⟩
  exact hn m (by omega)

/-- What follows from the end of a settled run is settled with it. -/
theorem Settles.imp {run : Nat → α} {next : Nat → β} {a : α} {b : β} (h : Settles run a)
    (hnext : ∀ turns, run turns = a → next turns = b) : Settles next b := by
  obtain ⟨n, hn⟩ := h
  exact ⟨n, fun turns ht => hnext turns (hn turns ht)⟩

/-- What follows from the ends of two settled runs is settled with them. -/
theorem Settles.imp₂ {γ : Type} {run : Nat → α} {run' : Nat → β} {next : Nat → γ} {a : α} {b : β}
    {c : γ} (h : Settles run a) (h' : Settles run' b)
    (hnext : ∀ turns, run turns = a → run' turns = b → next turns = c) : Settles next c := by
  obtain ⟨n, hn⟩ := h
  obtain ⟨m, hm⟩ := h'
  exact ⟨max n m, fun turns ht => hnext turns (hn turns (by omega)) (hm turns (by omega))⟩

/-- Work after work, the first of which settles with a value. -/
theorem Settles.bind {x : Nat → EStateM ε σ α} {k : Nat → α → EStateM ε σ β} {s s' : σ} {a : α}
    {r : EStateM.Result ε σ β} (hx : Settles (fun turns => x turns s) (.ok a s'))
    (hk : Settles (fun turns => k turns a s') r) :
    Settles (fun turns => (x turns >>= k turns) s) r :=
  hx.imp₂ hk fun turns hx hk => (bind_of_ok hx (k turns)).trans hk

end Settles

end Zstandard
