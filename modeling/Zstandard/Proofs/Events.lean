import Mathlib
import Zstandard.Proofs.Callers
import Zstandard.Proofs.Pulling
import Zstandard.Script

/-!
# What a reader serves does not depend on how it is read

The caller of a reader sees events: bytes, failures, and the end. However large the rooms of its
reads are, the events come in one order: of two callers, the one that has seen less has seen a
beginning of what the other has seen, also when reads fail and are tried again. A read without room
does nothing, and a read that gives nothing although there is room has found the end, which stays.
The headline is `reads_serve_alike`.

Reads of any rooms are taken apart into steps that know of no room (`Pull.Emits`): one byte of the
output, the end, or output that is made. Which step comes next is fixed by the state.
-/

namespace Zstandard

/-- What the caller of a reader sees. -/
inductive Event where
  | byte (b : UInt8)
  | failed (e : IoError)
  | ended
  deriving DecidableEq

/-- The events of a read into `room`; a read without room has none. -/
def eventsOf (room : Nat) : Except (Halt IoError) ByteArray → List Event
  | .ok b => if room ≠ 0 ∧ b.size = 0 then [.ended] else b.data.toList.map .byte
  | .error (.failed e) => [.failed e]
  | .error .outOfTurns => []

/-- Reads one after another, each of which has come to an end, lead from `first` to a state, with
these events. A read that has failed may be followed by others. -/
inductive Reads {σ : Type} (read : (turns room : Nat) → σ → Except (Halt IoError) ByteArray × σ)
    (first : σ) : List Event → σ → Prop where
  | nil : Reads read first [] first
  | read {events : List Event} {s s' : σ} {turns room : Nat}
      {result : Except (Halt IoError) ByteArray} : Reads read first events s →
      read turns room s = (result, s') → result ≠ .error .outOfTurns →
      Reads read first (events ++ eventsOf room result) s'

/-- However it is read, the same events come in the same order. -/
structure ServesAlike {σ : Type}
    (read : (turns room : Nat) → σ → Except (Halt IoError) ByteArray × σ) (ended : σ → Bool) :
    Prop where
  /-- Of the events of two callers, one are a beginning of the other. -/
  comparable : ∀ {first s s' : σ} {events events' : List Event}, Reads read first events s →
    Reads read first events' s' → events <+: events' ∨ events' <+: events
  /-- A read without room gives nothing and changes nothing. -/
  roomless : ∀ turns s, read turns 0 s = (.ok .empty, s)
  /-- A read that gives nothing although there is room has found the end. From then on each read
  gives nothing and leaves the state as it is, which holds all calls of the reader and of the
  codec. -/
  last : ∀ {turns room : Nat} {s s' : σ} {b : ByteArray}, read turns room s = (.ok b, s') →
    room ≠ 0 → b.size = 0 →
    ended s' = true ∧ ∀ turns' room', read (turns' + 1) room' s' = (.ok .empty, s')

namespace Slice

theorem drop_of_isEmpty {s : Slice} (h : s.toList = []) (n : Nat) : s.drop n = s := by
  have hsize : s.size = 0 := by rw [← length_toList, h]; rfl
  have hle := s.start_le
  unfold size at hsize
  simp only [drop]
  congr 1
  omega

theorem drop_drop (s : Slice) (n m : Nat) : (s.drop n).drop m = s.drop (n + m) := by
  simp only [drop]
  congr 1
  omega

theorem drop_zero (s : Slice) : s.drop 0 = s := by
  have hle := s.start_le
  simp only [drop]
  congr 1
  omega

theorem toBytes_of_isEmpty {s : Slice} (h : s.toList = []) : s.toBytes = .empty := by
  ext1
  exact Array.toList_eq_nil_iff.mp h

end Slice

namespace Pull

variable {σ : Type} [Pull σ] {s s' s₁ s₂ first : σ} {turns room : Nat}
  {events events' : List Event}

/-! ## Steps that know of no room -/

/-- The next step of a reader, and its events. -/
inductive Emits : σ → List Event → σ → Prop where
  /-- A byte of the output. -/
  | byte {s : σ} {b : UInt8} {rest : List UInt8} : (output s).toList = b :: rest →
      Emits s [.byte b] (serve 1 s)
  /-- The end. -/
  | ended {s : σ} : (output s).toList = [] → ended s = true → Emits s [.ended] s
  /-- Output has been made, or the end been found. -/
  | prepared {s s' : σ} {turns : Nat} : ready s = false → prepare turns s = (.ok (), s') →
      Emits s [] s'
  /-- No output could be made. -/
  | failed {s s' : σ} {turns : Nat} {e : Error} : ready s = false →
      prepare turns s = (.error (.failed e), s') → Emits s [.failed e.toIoError] s'

/-- Steps one after another. -/
inductive Course : σ → List Event → σ → Prop where
  | nil {s : σ} : Course s [] s
  | cons {s s₁ s' : σ} {now later : List Event} : Emits s now s₁ → Course s₁ later s' →
      Course s (now ++ later) s'

theorem ready_eq_false_iff : ready s = false ↔ (output s).toList = [] ∧ ended s = false := by
  unfold ready
  rw [Bool.or_eq_false_iff]
  refine and_congr_left fun _ => ?_
  cases hempty : (output s).isEmpty with
  | true => simp [toList_of_isEmpty hempty]
  | false => simp [toList_ne_nil_of_isEmpty hempty]

/-- Turns that are enough to prepare output come to the same. -/
theorem prepare_unique {m : Nat} {x y : Except (Halt Error) Unit}
    (hx : prepare turns s = (x, s₁)) (hy : prepare m s = (y, s₂)) (hxo : x ≠ .error .outOfTurns)
    (hyo : y ≠ .error .outOfTurns) : x = y ∧ s₁ = s₂ := by
  have h := eq_of_stands (fun turns => prepare_stands turns s) (n := turns) (m := m)
    (by rw [hx]; exact hxo) (by rw [hy]; exact hyo)
  rw [hx, hy] at h
  exact Prod.mk.injEq .. ▸ h

/-- **The state fixes the next step.** -/
theorem Emits.unique (h₁ : Emits s events s₁) (h₂ : Emits s events' s₂) :
    events = events' ∧ s₁ = s₂ := by
  cases h₁ with
  | byte hb =>
      cases h₂ with
      | byte hb' => rw [hb] at hb'; cases hb'; exact ⟨rfl, rfl⟩
      | ended hnil _ => rw [hb] at hnil; cases hnil
      | prepared hunready _ => rw [(ready_eq_false_iff.mp hunready).1] at hb; cases hb
      | failed hunready _ => rw [(ready_eq_false_iff.mp hunready).1] at hb; cases hb
  | ended hnil hend =>
      cases h₂ with
      | byte hb' => rw [hnil] at hb'; cases hb'
      | ended _ _ => exact ⟨rfl, rfl⟩
      | prepared hunready _ => rw [(ready_eq_false_iff.mp hunready).2] at hend; cases hend
      | failed hunready _ => rw [(ready_eq_false_iff.mp hunready).2] at hend; cases hend
  | prepared hunready hp =>
      obtain ⟨hnil, hend⟩ := ready_eq_false_iff.mp hunready
      cases h₂ with
      | byte hb' => rw [hnil] at hb'; cases hb'
      | ended _ hend' => rw [hend] at hend'; cases hend'
      | prepared _ hp' => exact ⟨rfl, (prepare_unique hp hp' (by simp) (by simp)).2⟩
      | failed _ hp' =>
          have := (prepare_unique hp hp' (by simp) (by simp)).1
          cases this
  | failed hunready hp =>
      obtain ⟨hnil, hend⟩ := ready_eq_false_iff.mp hunready
      cases h₂ with
      | byte hb' => rw [hnil] at hb'; cases hb'
      | ended _ hend' => rw [hend] at hend'; cases hend'
      | prepared _ hp' =>
          have := (prepare_unique hp hp' (by simp) (by simp)).1
          cases this
      | failed _ hp' =>
          obtain ⟨he, hs⟩ := prepare_unique hp hp' (by simp) (by simp)
          cases he
          exact ⟨rfl, hs⟩

theorem Emits.course (h : Emits s events s') : Course s events s' := by
  have := Course.cons h .nil
  rwa [List.append_nil] at this

theorem Course.append (h : Course s events s₁) (h' : Course s₁ events' s') :
    Course s (events ++ events') s' := by
  induction h with
  | nil => exact h'
  | cons hnow _ ih =>
      rw [List.append_assoc]
      exact .cons hnow (ih h')

/-- **Of two courses from one state, one begins with the other.** -/
theorem Course.comparable (h₁ : Course s events s₁) : ∀ {events' s₂}, Course s events' s₂ →
    events <+: events' ∨ events' <+: events := by
  induction h₁ with
  | nil => intro events' s₂ _; exact Or.inl List.nil_prefix
  | cons hnow _ ih =>
      intro events' s₂ h₂
      cases h₂ with
      | nil => exact Or.inr List.nil_prefix
      | cons hnow' hlater' =>
          -- both begin with the one step that there is
          obtain ⟨rfl, rfl⟩ := hnow.unique hnow'
          rcases ih hlater' with h | h
          · exact Or.inl ((List.prefix_append_right_inj _).mpr h)
          · exact Or.inr ((List.prefix_append_right_inj _).mpr h)

/-! ## Reads as steps -/

/-- Serving the beginning of the output, byte by byte. -/
theorem course_serve : ∀ (n : Nat) (s : σ),
    Course s (((output s).toList.take n).map .byte) (serve n s) := by
  intro n
  induction n with
  | zero =>
      intro s
      rw [List.take_zero, serve, Slice.drop_zero, holding_output]
      exact .nil
  | succ n ih =>
      intro s
      cases ho : (output s).toList with
      | nil =>
          rw [List.take_nil, serve, Slice.drop_of_isEmpty ho, holding_output]
          exact .nil
      | cons b rest =>
          have hnext := ih (serve 1 s)
          have hrest : (output (serve 1 s)).toList = rest := by
            rw [serve, output_holding, Slice.toList_drop, ho, List.drop_one, List.tail_cons]
          have hserve : serve n (serve 1 s) = serve (n + 1) s := by
            simp only [serve, output_holding, holding_holding, Slice.drop_drop, Nat.add_comm 1 n]
          rw [hrest, hserve] at hnext
          exact .cons (.byte ho) hnext

/-- A read that finds output, or the end. -/
theorem course_of_ready (hready : ready s = true) (hroom : room ≠ 0) :
    Course s (eventsOf room (.ok ((output s).take room).toBytes)) (serve room s) := by
  by_cases ho : (output s).toList = []
  · have hend : ended s = true := by
      cases hend : ended s with
      | true => rfl
      | false => rw [ready_eq_false_iff.mpr ⟨ho, hend⟩] at hready; cases hready
    have hempty : ((output s).take room).toBytes.size = 0 := by
      rw [Slice.toBytes_of_isEmpty (by rw [Slice.toList_take, ho, List.take_nil])]
      rfl
    rw [eventsOf, if_pos ⟨hroom, hempty⟩, serve, Slice.drop_of_isEmpty ho, holding_output]
    exact (Emits.ended ho hend).course
  · have hsome : ((output s).take room).toBytes.size ≠ 0 :=
      fun hzero => ho (toList_of_take hroom hzero)
    have hbytes : ((output s).take room).toBytes.data.toList = (output s).toList.take room :=
      Slice.toList_take _ _
    rw [eventsOf, if_neg (fun h => hsome h.2), hbytes]
    exact course_serve room s

/-- A read is a course of steps. -/
theorem course_of_read {result : Except (Halt IoError) ByteArray}
    (hread : read turns room s = (result, s')) (hresult : result ≠ .error .outOfTurns) :
    Course s (eventsOf room result) s' := by
  by_cases hroom : room = 0
  · subst hroom
    obtain ⟨rfl, rfl⟩ : .ok .empty = result ∧ s = s' := by
      simpa only [read, if_true, Prod.mk.injEq] using hread
    exact .nil
  rw [read, if_neg hroom] at hread
  cases hready : ready s with
  | true =>
      cases turns with
      | zero => cases hread; exact absurd rfl hresult
      | succ turns =>
          rw [prepare_of_ready hready] at hread
          cases hread
          exact course_of_ready hready hroom
  | false =>
      obtain ⟨x, s₁, hp⟩ : ∃ x s₁, prepare turns s = (x, s₁) := ⟨_, _, rfl⟩
      rw [hp] at hread
      cases x with
      | ok =>
          cases hread
          exact .cons (.prepared hready hp) (course_of_ready (ready_of_prepare hp) hroom)
      | error halt =>
          cases hread
          cases halt with
          | failed e => exact (Emits.failed hready hp).course
          | outOfTurns => exact absurd rfl hresult

theorem course_of_reads (h : Reads read first events s) : Course first events s := by
  induction h with
  | nil => exact .nil
  | read _ hread hresult ih => exact ih.append (course_of_read hread hresult)

/-- A read that gives nothing has found the end, and leaves no output. -/
theorem ended_of_read {b : ByteArray} (hread : read turns room s = (.ok b, s')) (hroom : room ≠ 0)
    (hb : b.size = 0) : ended s' = true ∧ (output s').toList = [] := by
  rw [read, if_neg hroom] at hread
  obtain ⟨x, s₁, hp⟩ : ∃ x s₁, prepare turns s = (x, s₁) := ⟨_, _, rfl⟩
  rw [hp] at hread
  cases x with
  | error x => cases hread
  | ok =>
      cases hread
      have ho : (output s₁).toList = [] := toList_of_take hroom hb
      have hready := ready_of_prepare hp
      rw [serve, ended_holding, output_holding, Slice.toList_drop, ho, List.drop_nil]
      refine ⟨?_, rfl⟩
      cases hend : ended s₁ with
      | true => rfl
      | false => rw [ready_eq_false_iff.mpr ⟨ho, hend⟩] at hready; cases hready

theorem read_of_ended (hend : ended s = true) (ho : (output s).toList = []) (turns room : Nat) :
    read (turns + 1) room s = (.ok .empty, s) := by
  unfold read
  split
  · rfl
  have hready : ready s = true := by rw [ready, hend, Bool.or_true]
  rw [prepare_of_ready hready]
  have hnone : ((output s).take room).toBytes = .empty :=
    Slice.toBytes_of_isEmpty (by rw [Slice.toList_take, ho, List.take_nil])
  simp only [serve, Slice.drop_of_isEmpty ho, holding_output, hnone]

/-- **Whatever makes output serves alike.** -/
theorem servesAlike : ServesAlike (read (σ := σ)) ended where
  comparable h h' := (course_of_reads h).comparable (course_of_reads h')
  roomless _ _ := rfl
  last hread hroom hb := by
    obtain ⟨hend, ho⟩ := ended_of_read hread hroom hb
    exact ⟨hend, fun turns' room' => read_of_ended hend ho turns' room'⟩

end Pull

/-- **What a reader serves does not depend on how it is read.** Take a reader that compresses or
decompresses, in any state, around any codec and any reader, which may fail. Of two callers that
read from there into rooms of their own choice, also after failures, the bytes, failures and ends
that one sees are a beginning of those that the other sees. A read without room changes nothing, and
one that gives nothing although there is room has found the end, which stays. -/
theorem reads_serve_alike {κ ρ : Type} [Codec κ] [Reader ρ] :
    ServesAlike (CompressingReader.read (κ := κ) (ρ := ρ)) (fun c => c.session.isFinished)
      ∧ ServesAlike (DecompressingReader.read (κ := κ) (ρ := ρ)) DecompressingReader.finished := by
  have hcompress : CompressingReader.read (κ := κ) (ρ := ρ) = Pull.read := by
    funext turns room c
    exact c.read_eq turns room
  have hdecompress : DecompressingReader.read (κ := κ) (ρ := ρ) = Pull.read := by
    funext turns room d
    exact d.read_eq turns room
  rw [hcompress, hdecompress]
  exact ⟨Pull.servesAlike, Pull.servesAlike⟩

/-! ### A reader that stumbles once -/

namespace Stumbling

def failure : IoError := .plain .wouldBlock "busy"

/-- A reader of three bytes: it gives two, fails once, and goes on. -/
def reader : ScriptedReader := ⟨.ofBytes ⟨#[1, 2, 3]⟩, [.ok 2, .error failure], #[]⟩

def decompressor : DecompressingReader CopyingCodec ScriptedReader :=
  ⟨reader, ⟨.empty, 0, 4⟩, ⟨⟨none, .empty⟩, ⟨.empty, 4⟩, .active⟩, .empty, false, false, false⟩

/-- Where reads into some rooms lead. -/
def after (rooms : List Nat) : DecompressingReader CopyingCodec ScriptedReader :=
  rooms.foldl (fun d room => (d.read 9 room).2) decompressor

/-- One read more. -/
theorem reads_after (rooms : List Nat) (room : Nat) (result : Except (Halt IoError) ByteArray)
    {events : List Event} (h : Reads DecompressingReader.read decompressor events (after rooms))
    (hread : (after rooms).read 9 room = (result, after (rooms ++ [room])))
    (hresult : result ≠ .error .outOfTurns) :
    Reads DecompressingReader.read decompressor (events ++ eventsOf room result)
      (after (rooms ++ [room])) :=
  .read h hread hresult

theorem reads_small : Reads DecompressingReader.read decompressor
    [.byte 1, .byte 2, .failed failure, .byte 3] (after [1, 0, 1, 1, 7]) := by
  have h₁ := reads_after [] 1 (.ok ⟨#[1]⟩) .nil rfl (by simp)
  have h₂ := reads_after [1] 0 (.ok .empty) h₁ rfl (by simp)
  have h₃ := reads_after [1, 0] 1 (.ok ⟨#[2]⟩) h₂ rfl (by simp)
  have h₄ := reads_after [1, 0, 1] 1 (.error (.failed failure)) h₃ rfl (by simp)
  exact reads_after [1, 0, 1, 1] 7 (.ok ⟨#[3]⟩) h₄ rfl (by simp)

theorem reads_large : Reads DecompressingReader.read decompressor
    [.byte 1, .byte 2, .failed failure] (after [5, 5]) := by
  have h₁ := reads_after [] 5 (.ok ⟨#[1, 2]⟩) .nil rfl (by simp)
  exact reads_after [5] 5 (.error (.failed failure)) h₁ rfl (by simp)

end Stumbling

open Stumbling in
/-- One caller reads into small rooms and goes on after the failure, to the end; another reads into
large rooms and gives up. -/
theorem reads_serve_alike_when_stumbling :
    Reads DecompressingReader.read decompressor [.byte 1, .byte 2, .failed failure, .byte 3]
        (after [1, 0, 1, 1, 7])
      ∧ Reads DecompressingReader.read decompressor [.byte 1, .byte 2, .failed failure]
        (after [5, 5])
      ∧ [.byte 1, .byte 2, .failed failure] <+: [Event.byte 1, .byte 2, .failed failure, .byte 3]
      ∧ (after [1, 0, 1, 1, 7]).read 9 7 = (.ok .empty, after [1, 0, 1, 1, 7, 7])
      ∧ ∀ turns room, (after [1, 0, 1, 1, 7, 7]).read (turns + 1) room
        = (.ok .empty, after [1, 0, 1, 1, 7, 7]) := by
  obtain ⟨-, halike⟩ := reads_serve_alike (κ := CopyingCodec) (ρ := ScriptedReader)
  have hlast : (after [1, 0, 1, 1, 7]).read 9 7 = (.ok .empty, after [1, 0, 1, 1, 7, 7]) :=
    Prod.ext (by cbv) rfl
  obtain ⟨-, hend⟩ := halike.last hlast (by simp) rfl
  refine ⟨reads_small, reads_large, ?_, hlast, hend⟩
  rcases halike.comparable reads_large reads_small with h | h
  · exact h
  · have hlength := h.length_le
    simp at hlength

end Zstandard
