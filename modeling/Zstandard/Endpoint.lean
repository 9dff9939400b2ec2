import Zstandard.Error.Basic
import Zstandard.Slice

/-!
# Readers, writers, and runs over them

A reader gives at most as many bytes as it is asked for; a writer takes at most as many as it is
offered. Both may fail, and what they do next may depend on that, so each call gives the state
that follows it.

What drives them may go on for ever: a reader may be interrupted again and again, a codec may
produce without end. A run is therefore given a number of turns. It ends with a value, with an
error, or with `Halt.outOfTurns`, which is neither; a run that ends with one of the first two
ends so with any larger number of turns too. `ample` is a number of turns no machine uses up.
-/

namespace Zstandard

/-- Something that bytes are read from. -/
class Reader (ρ : Type) where
  /-- Reads at most `room` bytes; none means that there are no more. -/
  read : ρ → (room : Nat) → Except IoError ByteArray × ρ
  /-- A read gives no more than it was asked for. -/
  size_le : ∀ {r r' : ρ} {room : Nat} {b : ByteArray}, read r room = (.ok b, r') → b.size ≤ room

/-- Something that bytes are written to. -/
class Writer (ω : Type) where
  /-- Offers bytes and tells how many were taken. -/
  write : ω → Slice → Except IoError Nat × ω
  /-- Hands on what was taken. -/
  flush : ω → Except IoError Unit × ω
  /-- A write takes no more than it was offered. -/
  taken_le : ∀ {w w' : ω} {s : Slice} {n : Nat}, write w s = (.ok n, w') → n ≤ s.size

/-- A reader and a writer that know nothing of each other. -/
structure Ends (ρ ω : Type) where
  reader : ρ
  writer : ω

instance {ρ ω : Type} [Reader ρ] : Reader (Ends ρ ω) where
  read e room :=
    match e with
    | ⟨reader, writer⟩ =>
      match Reader.read reader room with
      | (r, reader) => (r, ⟨reader, writer⟩)
  size_le h := by
    simp only [Prod.mk.injEq] at h
    exact Reader.size_le (Prod.ext h.1 rfl)

instance {ρ ω : Type} [Writer ω] : Writer (Ends ρ ω) where
  write e s :=
    match e with
    | ⟨reader, writer⟩ =>
      match Writer.write writer s with
      | (r, writer) => (r, ⟨reader, writer⟩)
  flush e :=
    match e with
    | ⟨reader, writer⟩ =>
      match Writer.flush writer with
      | (r, writer) => (r, ⟨reader, writer⟩)
  taken_le h := by
    simp only [Prod.mk.injEq] at h
    exact Writer.taken_le (Prod.ext h.1 rfl)

/-- Why a run ended without a value. -/
inductive Halt (ε : Type) where
  | failed (error : ε)
  | outOfTurns
  deriving Repr, DecidableEq

/-- The same end, with another type of error. -/
def Halt.map {ε δ : Type} (f : ε → δ) : Halt ε → Halt δ
  | .failed e => .failed (f e)
  | .outOfTurns => .outOfTurns

/-- More turns than a machine can take. -/
def ample : Nat := 2 ^ 62

/-- Repeats single writes until all of `s` is taken: goes on after a short write and after an
interruption, and takes a write of nothing for a failure. -/
def writeAllBy {ω : Type} (write : ω → Slice → Except (Halt IoError) Nat × ω) :
    (turns : Nat) → ω → Slice → Except (Halt IoError) Unit × ω
  | 0, w, s => if s.isEmpty then (.ok (), w) else (.error .outOfTurns, w)
  | turns + 1, w, s =>
    if s.isEmpty then (.ok (), w)
    else
      match write w s with
      | (.ok 0, w) => (.error (.failed (.plain .writeZero "failed to write whole buffer")), w)
      | (.ok n, w) => writeAllBy write turns w (s.drop n)
      | (.error (.failed e), w) =>
        if e.kind = .interrupted then writeAllBy write turns w s else (.error (.failed e), w)
      | (.error .outOfTurns, w) => (.error .outOfTurns, w)

/-- Writes all of `s` to a writer. -/
def writeAll {ω : Type} [Writer ω] (turns : Nat) (w : ω) (s : Slice) :
    Except (Halt IoError) Unit × ω :=
  writeAllBy (fun w s => (fun r => (r.1.mapError .failed, r.2)) (Writer.write w s)) turns w s

/-- Repeats single reads into `room` bytes until there are no more, behind those of `out`. A failure
leaves what was read before it. -/
def readAllBy {ρ : Type} (read : ρ → (room : Nat) → Except (Halt IoError) ByteArray × ρ)
    (room : Nat) : (turns : Nat) → ρ → (out : ByteArray) →
    Except (Halt IoError) Unit × ρ × ByteArray
  | 0, r, out => (.error .outOfTurns, r, out)
  | turns + 1, r, out =>
    match read r room with
    | (.error h, r) => (.error h, r, out)
    | (.ok chunk, r) =>
      if chunk.isEmpty then (.ok (), r, out) else readAllBy read room turns r (out ++ chunk)

/-! ## Ends in memory -/

/-- A slice is read from its front. -/
instance : Reader Slice where
  read s room := (.ok (s.take room).toBytes, s.drop room)
  size_le {s s' room b} h := by
    simp only [Prod.mk.injEq, Except.ok.injEq] at h
    have hs : (s.take room).toBytes.size = (s.take room).size := (s.take room).length_toList
    rw [← h.1, hs, Slice.size_take]
    omega

/-- An array takes everything at its end. -/
instance : Writer ByteArray where
  write b s := (.ok s.size, s.appendTo b)
  flush b := (.ok (), b)
  taken_le h := by
    simp only [Prod.mk.injEq, Except.ok.injEq] at h
    omega

end Zstandard
