import Zstandard.Proofs.Turns

/-!
# Readers that serve what they have made

A compressing and a decompressing reader read alike: output is made only when there is none, and
then it is served from its front. `Pull` is what they have in common, a state with some output and a
way to make the next of it; `Pull.prepare` and `Pull.read` are the two loops, and those of the
readers are these (`CompressingReader.read_eq`, `DecompressingReader.read_eq`).
-/

namespace Zstandard

/-- A state that holds output, may make more, and may have ended. -/
class Pull (σ : Type) where
  /-- The output that nobody has read. -/
  output : σ → Slice
  /-- The state with other output. -/
  holding : σ → Slice → σ
  /-- Whether no more output can be made. -/
  ended : σ → Bool
  /-- Makes the next piece of output, which may be empty. -/
  fill : (turns : Nat) → σ → Except (Halt Error) Unit × σ
  output_holding : ∀ s o, output (holding s o) = o
  holding_output : ∀ s, holding s (output s) = s
  holding_holding : ∀ s o o', holding (holding s o) o' = holding s o'
  ended_holding : ∀ s o, ended (holding s o) = ended s
  /-- A fill with turns enough is as good as one with more. -/
  fill_stands : ∀ turns s, Stands (fill turns s) (fill (turns + 1) s)

namespace Pull

variable {σ : Type} [Pull σ] {s s' : σ} {turns : Nat}

attribute [simp] output_holding holding_output holding_holding ended_holding

/-- Whether a read can be answered at once. -/
def ready (s : σ) : Bool := !(output s).isEmpty || ended s

/-- Makes output until there is some, or until no more can be made. -/
def prepare : (turns : Nat) → σ → Except (Halt Error) Unit × σ
  | 0, s => (.error .outOfTurns, s)
  | turns + 1, s =>
    if ready s then (.ok (), s)
    else
      match fill turns s with
      | (.ok (), s) => prepare turns s
      | (.error h, s) => (.error h, s)

/-- Takes at most `room` bytes from the front of the output. -/
def serve (room : Nat) (s : σ) : σ := holding s ((output s).drop room)

/-- Reads at most `room` bytes. -/
def read (turns room : Nat) (s : σ) : Except (Halt IoError) ByteArray × σ :=
  if room = 0 then (.ok .empty, s)
  else
    match prepare turns s with
    | (.error h, s) => (.error (h.map Error.toIoError), s)
    | (.ok (), s) => (.ok ((output s).take room).toBytes, serve room s)

theorem prepare_of_ready (h : ready s = true) : prepare (turns + 1) s = (.ok (), s) := by
  simp only [prepare, h, if_true]

theorem prepare_of_fill (h : ready s = false) (hfill : fill turns s = (.ok (), s')) :
    prepare (turns + 1) s = prepare turns s' := by
  simp only [prepare, h, Bool.false_eq_true, if_false, hfill]

theorem prepare_of_failure {x : Halt Error} (h : ready s = false)
    (hfill : fill turns s = (.error x, s')) : prepare (turns + 1) s = (.error x, s') := by
  simp only [prepare, h, Bool.false_eq_true, if_false, hfill]

/-- Preparing output is over when a read can be answered. -/
theorem ready_of_prepare : ∀ {turns : Nat} {s s' : σ}, prepare turns s = (.ok (), s') →
    ready s' = true := by
  intro turns
  induction turns with
  | zero => intro s s' h; cases h
  | succ turns ih =>
      intro s s' h
      cases hready : ready s with
      | true =>
          rw [prepare_of_ready hready] at h
          cases h
          exact hready
      | false =>
          obtain ⟨result, s₁, hfill⟩ : ∃ result s₁, fill turns s = (result, s₁) := ⟨_, _, rfl⟩
          cases result with
          | ok =>
              rw [prepare_of_fill hready hfill] at h
              exact ih h
          | error x =>
              rw [prepare_of_failure hready hfill] at h
              cases h

theorem prepare_stands : ∀ (turns : Nat) (s : σ),
    Stands (prepare turns s) (prepare (turns + 1) s) := by
  intro turns
  induction turns with
  | zero => intro s h; exact absurd rfl h
  | succ turns ih =>
      intro s h
      cases hready : ready s with
      | true => rw [prepare_of_ready hready, prepare_of_ready hready]
      | false =>
          obtain ⟨result, s₁, hfill⟩ : ∃ result s₁, fill turns s = (result, s₁) := ⟨_, _, rfl⟩
          cases result with
          | ok =>
              have hmore : fill (turns + 1) s = (.ok (), s₁) := by
                rw [fill_stands turns s (by rw [hfill]; simp [Cut]), hfill]
              rw [prepare_of_fill hready hfill] at h ⊢
              rw [prepare_of_fill hready hmore]
              exact ih s₁ h
          | error x =>
              rw [prepare_of_failure hready hfill] at h ⊢
              have hmore : fill (turns + 1) s = (.error x, s₁) := by
                rw [fill_stands turns s (by rw [hfill]; exact h), hfill]
              rw [prepare_of_failure hready hmore]

/-- However many turns a read is given, it comes to the same if they are enough. -/
theorem read_stands (turns room : Nat) (s : σ) :
    Stands (read turns room s) (read (turns + 1) room s) := by
  intro h
  by_cases hroom : room = 0
  · simp only [read, hroom, if_true]
  · have hprepare : ¬ Cut (prepare turns s) := by
      intro hcut
      obtain ⟨s₁, hp⟩ := hcut.eq_error
      simp [read, hroom, hp, Cut, Halt.map] at h
    simp only [read, prepare_stands turns s hprepare]

end Pull

/-! ## The two readers -/

namespace CompressingReader

variable {κ ρ : Type} [Codec κ] [Reader ρ]

theorem fill_stands (turns : Nat) (c : CompressingReader κ ρ) :
    Stands (c.fill turns) (c.fill (turns + 1)) := by
  intro h
  obtain ⟨reader, source, session, output, full, finishing⟩ := c
  unfold fill at h ⊢
  cases finishing with
  | true => rfl
  | false =>
      by_cases hneeds : (source.pending.isEmpty && !full) = true
      · have hrefill : ¬ Cut (source.refill turns reader) := by
          intro hcut
          obtain ⟨rest, hr⟩ := hcut.eq_error
          simp [hneeds, hr, Cut] at h
        simp only [hneeds, SourceBuffer.refill_stands turns source reader hrefill]
      · simp only [hneeds, Bool.false_eq_true, if_false]

instance : Pull (CompressingReader κ ρ) where
  output := output
  holding c o := { c with output := o }
  ended c := c.session.isFinished
  fill := fill
  output_holding _ _ := rfl
  holding_output _ := rfl
  holding_holding _ _ _ := rfl
  ended_holding _ _ := rfl
  fill_stands := fill_stands

theorem prepare_eq : ∀ (turns : Nat) (c : CompressingReader κ ρ),
    c.prepare turns = Pull.prepare turns c := by
  intro turns
  induction turns with
  | zero => intro c; rfl
  | succ turns ih =>
      intro c
      cases hready : Pull.ready c with
      | true =>
          rw [Pull.prepare_of_ready hready]
          exact if_pos hready
      | false =>
          have hunready : (!c.output.isEmpty || c.session.isFinished) = false := hready
          obtain ⟨result, c', hfill⟩ : ∃ result c', c.fill turns = (result, c') := ⟨_, _, rfl⟩
          cases result with
          | ok =>
              rw [Pull.prepare_of_fill hready hfill, ← ih]
              simp only [prepare, hunready, Bool.false_eq_true, if_false, hfill]
          | error x =>
              rw [Pull.prepare_of_failure hready hfill]
              simp only [prepare, hunready, Bool.false_eq_true, if_false, hfill]

/-- **A compressing reader serves what it has made.** -/
theorem read_eq (turns room : Nat) (c : CompressingReader κ ρ) :
    c.read turns room = Pull.read turns room c := by
  unfold read Pull.read
  rw [prepare_eq]
  cases Pull.prepare turns c with
  | mk result c' => cases result <;> rfl

end CompressingReader

namespace DecompressingReader

variable {κ ρ : Type} [Codec κ] [Reader ρ]

theorem fill_stands (turns : Nat) (d : DecompressingReader κ ρ) :
    Stands (d.fill turns) (d.fill (turns + 1)) := by
  intro h
  obtain ⟨reader, source, session, output, full, stalled, finished⟩ := d
  unfold fill at h ⊢
  by_cases hneeds : needsInput ⟨reader, source, session, output, full, stalled, finished⟩ = true
  · have hrefill : ¬ Cut (source.refill turns reader) := by
      intro hcut
      obtain ⟨rest, hr⟩ := hcut.eq_error
      simp [hneeds, hr, Cut] at h
    simp only [hneeds, SourceBuffer.refill_stands turns source reader hrefill]
  · simp only [hneeds, Bool.false_eq_true, if_false]

instance : Pull (DecompressingReader κ ρ) where
  output := output
  holding d o := { d with output := o }
  ended := finished
  fill := fill
  output_holding _ _ := rfl
  holding_output _ := rfl
  holding_holding _ _ _ := rfl
  ended_holding _ _ := rfl
  fill_stands := fill_stands

theorem prepare_eq : ∀ (turns : Nat) (d : DecompressingReader κ ρ),
    d.prepare turns = Pull.prepare turns d := by
  intro turns
  induction turns with
  | zero => intro d; rfl
  | succ turns ih =>
      intro d
      cases hready : Pull.ready d with
      | true =>
          rw [Pull.prepare_of_ready hready]
          exact if_pos hready
      | false =>
          have hunready : (!d.output.isEmpty || d.finished) = false := hready
          obtain ⟨result, d', hfill⟩ : ∃ result d', d.fill turns = (result, d') := ⟨_, _, rfl⟩
          cases result with
          | ok =>
              rw [Pull.prepare_of_fill hready hfill, ← ih]
              simp only [prepare, hunready, Bool.false_eq_true, if_false, hfill]
          | error x =>
              rw [Pull.prepare_of_failure hready hfill]
              simp only [prepare, hunready, Bool.false_eq_true, if_false, hfill]

/-- **A decompressing reader serves what it has made.** -/
theorem read_eq (turns room : Nat) (d : DecompressingReader κ ρ) :
    d.read turns room = Pull.read turns room d := by
  unfold read Pull.read
  rw [prepare_eq]
  cases Pull.prepare turns d with
  | mk result d' => cases result <;> rfl

end DecompressingReader

end Zstandard
