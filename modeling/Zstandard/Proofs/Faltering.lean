import Zstandard.Proofs.Fetching

/-!
# Readers that falter

A reader may fail before some of its reads and then go on as if nothing had been. `Faltering P` is
any reader with such failures of the kinds `P` put before its reads, any finite number of them
before each.
-/

namespace Zstandard

/-- A reader with failures of the kinds `P` before its reads. -/
structure Faltering (P : IoKind → Prop) (ρ : Type) where
  /-- What does the reads. -/
  reader : ρ
  /-- The failures before the next read. -/
  now : List {e : IoError // P e.kind}
  /-- The failures before each read after that. -/
  later : Nat → List {e : IoError // P e.kind}
  /-- The failures so far. -/
  met : List IoError

namespace Faltering

variable {P : IoKind → Prop} {ρ : Type} [Reader ρ]

instance : Reader (Faltering P ρ) where
  read f room :=
    match f with
    | ⟨reader, e :: now, later, met⟩ => (.error e.1, ⟨reader, now, later, met ++ [e.1]⟩)
    | ⟨reader, [], later, met⟩ =>
      match Reader.read reader room with
      | (result, reader) => (result, ⟨reader, later 0, fun n => later (n + 1), met⟩)
  size_le {f f' room b} h := by
    obtain ⟨reader, now, later, met⟩ := f
    cases now with
    | cons e now => cases h
    | nil =>
        dsimp only at h
        simp only [Prod.mk.injEq] at h
        exact Reader.size_le (Prod.ext h.1 rfl)

/-- Where failures stand before the next read, the first of them comes out. -/
theorem read_of_failure {reader : ρ} {e : {e : IoError // P e.kind}}
    {now : List {e : IoError // P e.kind}} {later : Nat → List {e : IoError // P e.kind}}
    {met : List IoError} {room : Nat} :
    Reader.read (⟨reader, e :: now, later, met⟩ : Faltering P ρ) room
      = (.error e.1, ⟨reader, now, later, met ++ [e.1]⟩) := rfl

/-- Where no failure stands before the next read, it is a read. -/
theorem read_of_none {reader reader' : ρ} (later : Nat → List {e : IoError // P e.kind})
    (met : List IoError) {room : Nat} {result : Except IoError ByteArray}
    (h : Reader.read reader room = (result, reader')) :
    Reader.read (⟨reader, [], later, met⟩ : Faltering P ρ) room
      = (result, ⟨reader', later 0, fun n => later (n + 1), met⟩) := by
  show (match Reader.read reader room with
    | (result, reader) => (result, (⟨reader, later 0, fun n => later (n + 1), met⟩ :
      Faltering P ρ))) = _
  rw [h]

end Faltering

/-! ## Filling a buffer -/

namespace SourceBuffer

section Faltering

variable {ρ : Type} [Reader ρ]

/-- **Interruptions make no difference** to what a fill comes to. -/
theorem fill_interrupted : ∀ (turns : Nat) {b b' : SourceBuffer}
    {f f' : Faltering (· = .interrupted) ρ} {answer : Except Error Refill},
    b.fill turns f = (answered answer, b', f') →
    Settles (fun turns => b.fill turns f.reader) (answered answer, b', f'.reader) := by
  intro turns
  induction turns with
  | zero =>
      intro b b' f f' answer h
      exact absurd (Prod.mk.inj h).1.symm (answered_ne answer)
  | succ turns ih =>
      intro b b' f f' answer h
      obtain ⟨reader, now, later, met⟩ := f
      cases now with
      | cons e now =>
          rw [fill_of_interrupted Faltering.read_of_failure e.2] at h
          exact ih (f := ⟨reader, now, later, met ++ [e.1]⟩) h
      | nil =>
          obtain ⟨result, reader', hread⟩ : ∃ result reader',
              Reader.read reader (b.capacity - b.bytes.size) = (result, reader') := ⟨_, _, rfl⟩
          have hfread := Faltering.read_of_none (P := (· = .interrupted)) later met hread
          rcases fill_of_read b result with ⟨told, b₁, hsettled⟩ | hagain
          · rw [hsettled hfread] at h
            obtain ⟨hanswer, hrest⟩ := Prod.mk.inj h
            obtain ⟨rfl, rfl⟩ := Prod.mk.inj hrest
            rw [← hanswer]
            exact Settles.of_succ ⟨0, fun turns _ => hsettled hread turns⟩
          · rw [hagain hfread] at h
            refine Settles.of_succ ((ih h).imp fun turns hturns => ?_)
            exact (hagain hread turns).trans hturns

/-- A fill from a reader comes to the same when interruptions are put before its reads. -/
theorem fill_uninterrupted : ∀ (turns : Nat) {b b' : SourceBuffer} {r r' : ρ}
    {answer : Except Error Refill}, b.fill turns r = (answered answer, b', r') →
    ∀ {f : Faltering (· = .interrupted) ρ}, f.reader = r →
    ∃ f', Settles (fun turns => b.fill turns f) (answered answer, b', f') ∧ f'.reader = r' := by
  intro turns
  induction turns with
  | zero =>
      intro b b' r r' answer h
      exact absurd (Prod.mk.inj h).1.symm (answered_ne answer)
  | succ turns ih =>
      rintro b b' r r' answer h ⟨reader, now, later, met⟩ rfl
      -- and on the interruptions before the read
      induction now generalizing met with
      | cons e now ihnow =>
          obtain ⟨f', hset, hf'⟩ := ihnow (met ++ [e.1]) h
          refine ⟨f', Settles.of_succ (hset.imp fun turns hturns => ?_), hf'⟩
          rw [← hturns]
          exact fill_of_interrupted Faltering.read_of_failure e.2 turns
      | nil =>
          obtain ⟨result, reader', hread⟩ : ∃ result reader',
              Reader.read reader (b.capacity - b.bytes.size) = (result, reader') := ⟨_, _, rfl⟩
          have hfread := Faltering.read_of_none (P := (· = .interrupted)) later met hread
          dsimp only at h
          rcases fill_of_read b result with ⟨told, b₁, hsettled⟩ | hagain
          · rw [hsettled hread] at h
            obtain ⟨hanswer, hrest⟩ := Prod.mk.inj h
            obtain ⟨rfl, rfl⟩ := Prod.mk.inj hrest
            rw [← hanswer]
            exact ⟨_, Settles.of_succ ⟨0, fun turns _ => hsettled hfread turns⟩, rfl⟩
          · rw [hagain hread] at h
            obtain ⟨f', hset, hf'⟩ :=
              ih h (f := ⟨reader', later 0, fun n => later (n + 1), met⟩) rfl
            refine ⟨f', Settles.of_succ (hset.imp fun turns hturns => ?_), hf'⟩
            exact (hagain hfread turns).trans hturns

end Faltering

end SourceBuffer

/-- Two readers that come from one, with different failures before its reads. -/
def Faltering.Same {P : IoKind → Prop} {ρ : Type} (f f' : Faltering P ρ) : Prop :=
  f'.reader = f.reader

/-- **Readers that differ in interruptions alone** are alike to a driver. -/
theorem Faltering.readsAlike {ρ : Type} [Reader ρ] :
    ReadsAlike (Faltering.Same (P := (· = .interrupted)) (ρ := ρ)) := by
  intro f f' hsame turns b b' answer f₁ hfill
  obtain ⟨n, hn⟩ := (SourceBuffer.fill_interrupted turns hfill).reached
  exact SourceBuffer.fill_uninterrupted n hn hsame

end Zstandard
