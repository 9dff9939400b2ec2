import Zstandard.Proofs.Buffers
import Zstandard.Proofs.Calls

/-!
# Which call a failure comes from

A call of a codec, a reader or a writer brings a failure or none (`error?`): an interrupted read or
write is made again and is no failure, a write that takes nothing of something is one. What drives a
reader or a writer stops at the first call that brings a failure and hands that failure on
(`Explains`). A full source buffer and an empty destination buffer are refused without a call.
-/

namespace Zstandard

/-- The failure that a call brings to who made it. -/
def EndCall.error? : EndCall → Option Error
  | .read _ (.error e) => if e.kind = .interrupted then none else some (.readIo e)
  | .write s (.ok n) =>
    if s.isEmpty = false ∧ n = 0 then
      some (.writeIo (.plain .writeZero "failed to write whole buffer"))
    else none
  | .write _ (.error e) => if e.kind = .interrupted then none else some (.writeIo e)
  | .flush (.error e) => some (.writeIo e)
  | _ => none

/-- Whether the call is a write. -/
def EndCall.isWrite : EndCall → Bool
  | .write _ _ => true
  | _ => false

/-- The failure that a step brings. -/
def StepCall.error? (c : StepCall) : Option Error :=
  match c.result with
  | .ok _ => none
  | .error e => some e

section Explains

variable {γ α β : Type} {error? : γ → Option Error}

/-- None of the calls brings a failure. -/
def Harmless (error? : γ → Option Error) (calls : List γ) : Prop := ∀ c ∈ calls, error? c = none

/-- The last of the calls brings a failure, and no other. -/
def FailsLast (error? : γ → Option Error) (calls : List γ) (e : Error) : Prop :=
  ∃ before last, calls = before ++ [last] ∧ Harmless error? before ∧ error? last = some e

/-- The calls come to the result: a failure is that of the last of them, and there is none
otherwise. -/
def Explains (error? : γ → Option Error) (calls : List γ) : Except (Halt Error) α → Prop
  | .error (.failed e) => FailsLast error? calls e
  | _ => Harmless error? calls

theorem harmless_nil : Harmless error? [] := fun _ hc => absurd hc List.not_mem_nil

theorem FailsLast.of_cons {c : γ} {calls : List γ} {e : Error} (hc : error? c = none)
    (h : FailsLast error? calls e) : FailsLast error? (c :: calls) e := by
  obtain ⟨before, last, rfl, hbefore, hlast⟩ := h
  exact ⟨c :: before, last, rfl, List.forall_mem_cons.mpr ⟨hc, hbefore⟩, hlast⟩

/-- A harmless call before the others makes no difference. -/
theorem Explains.of_cons {c : γ} {calls : List γ} {result : Except (Halt Error) α}
    (hc : error? c = none) (h : Explains error? calls result) :
    Explains error? (c :: calls) result := by
  match result with
  | .error (.failed e) => exact FailsLast.of_cons hc h
  | .error .outOfTurns => exact List.forall_mem_cons.mpr ⟨hc, h⟩
  | .ok _ => exact List.forall_mem_cons.mpr ⟨hc, h⟩

/-- A halt is blamed on the last of the calls, or on none. -/
def Blames (error? : γ → Option Error) (calls : List γ) (x : Halt Error) : Prop :=
  (∃ e, x = .failed e ∧ FailsLast error? calls e) ∨ Harmless error? calls

theorem Explains.blames {calls : List γ} {x : Halt Error}
    (h : Explains error? calls (.error x : Except (Halt Error) α)) : Blames error? calls x := by
  cases x with
  | failed e => exact Or.inl ⟨e, rfl, h⟩
  | outOfTurns => exact Or.inr h

/-- A failure is that of one of the calls. -/
theorem Explains.exists_mem {calls : List γ} {e : Error}
    (h : Explains error? calls (.error (.failed e) : Except (Halt Error) α)) :
    ∃ c ∈ calls, error? c = some e := by
  obtain ⟨before, last, rfl, -, hlast⟩ := h
  exact ⟨last, List.mem_append_right _ (List.mem_singleton_self _), hlast⟩

/-- Where a failure comes last, it is the only one. -/
theorem FailsLast.eq_of_append {before after : List γ} {c : γ} {e e' : Error}
    (h : FailsLast error? (before ++ c :: after) e) (hc : error? c = some e') :
    after = [] ∧ e' = e := by
  obtain ⟨before', last, heq, hbefore, hlast⟩ := h
  rcases List.eq_nil_or_concat after with rfl | ⟨after, d, rfl⟩
  · obtain ⟨-, hd⟩ := List.append_inj' heq rfl
    obtain rfl := List.singleton_inj.mp hd
    exact ⟨rfl, Option.some.inj (hc.symm.trans hlast)⟩
  · -- the call stands before the last one, and brings nothing
    rw [List.concat_eq_append, ← List.cons_append, ← List.append_assoc] at heq
    obtain ⟨rfl, -⟩ := List.append_inj' heq rfl
    rw [hbefore c (List.mem_append_right _ List.mem_cons_self)] at hc
    cases hc

end Explains

/-! ## Writing -/

section Writing

variable {ε : Type} [Writer ε]

namespace WriteCalls

variable {turns : Nat} {s : Slice} {more : List EndCall} {result : Except (Halt IoError) Unit}

theorem writes (h : WriteCalls turns s more result) : ∀ c ∈ more, c.isWrite = true := by
  induction h with
  | done | cut => exact List.forall_mem_nil _
  | nothing | failed => exact List.forall_mem_singleton.mpr rfl
  | taken _ _ _ ih | interrupted _ _ _ ih => exact List.forall_mem_cons.mpr ⟨rfl, ih⟩

/-- Only the last call has failed, if any has. -/
theorem explains (h : WriteCalls turns s more result) :
    Explains EndCall.error? more (result.mapError (Halt.map .writeIo)) := by
  induction h with
  | done | cut => exact harmless_nil
  | nothing hs => exact ⟨[], _, rfl, harmless_nil, if_pos ⟨hs, rfl⟩⟩
  | failed _ he => exact ⟨[], _, rfl, harmless_nil, if_neg he⟩
  | taken _ hn _ ih => exact ih.of_cons (if_neg fun h => Nat.ne_of_gt hn h.2)
  | interrupted _ he _ ih => exact ih.of_cons (if_pos he)

end WriteCalls

/-- What came of writing a slice, by some calls of the writer. -/
structure WroteAll (s : Slice) (more : List EndCall) (result : Except (Halt IoError) Unit) :
    Prop where
  writes : ∀ c ∈ more, c.isWrite = true
  /-- A failure is that of the last write. -/
  explains : Explains EndCall.error? more (result.mapError (Halt.map .writeIo))
  /-- The writer has taken a beginning of the slice, -/
  sent : acceptedBy more <+: s.toList
  /-- and all of it if that succeeds. -/
  all : result = .ok () → acceptedBy more = s.toList

/-- **Writing everything stops at the first failure.** -/
theorem writeAll_wroteAll (turns : Nat) (o : Observed ε) (s : Slice) : ∃ more,
    (writeAll turns o s).2.calls = o.calls ++ more
      ∧ WroteAll s more (writeAll turns o s).1 := by
  obtain ⟨more, hcalls, hmore⟩ := writeAll_writeCalls turns o s
  exact ⟨more, hcalls, hmore.writes, hmore.explains, hmore.sent, hmore.all⟩

/-- No write has failed. -/
def Unrefused (calls : List EndCall) : Prop := ∀ c ∈ calls, c.isWrite = true → c.error? = none

namespace DestinationBuffer

/-- What came of writing a buffer out, by some calls of the writer. -/
structure WrittenOut (b b' : DestinationBuffer) (more : List EndCall)
    (result : Except (Halt Error) Unit) : Prop where
  /-- The calls are writes. -/
  writes : ∀ c ∈ more, c.isWrite = true
  /-- The writer has taken a beginning of what the buffer held. -/
  sent : acceptedBy more <+: b.bytes.data.toList
  /-- A success empties the buffer: the writer has taken all of it. -/
  ok : result = .ok () →
    b'.bytes = .empty ∧ acceptedBy more = b.bytes.data.toList ∧ Harmless EndCall.error? more
  /-- Otherwise the buffer is as it was, -/
  error : ∀ x, result = .error x → b' = b ∧ Blames EndCall.error? more x
  /-- and the writer has taken nothing, unless it has refused a write or there is more to come. -/
  unsent : result ≠ .ok () → result ≠ .error .outOfTurns → Unrefused more → acceptedBy more = []

/-- **Writing a buffer out stops at the first failure.** -/
theorem flush_writtenOut (turns : Nat) (b : DestinationBuffer) (o : Observed ε) :
    ∃ more, (b.flush turns o).2.2.calls = o.calls ++ more
      ∧ WrittenOut b (b.flush turns o).2.1 more (b.flush turns o).1 := by
  rw [flush]
  split
  · -- an empty buffer is refused, without a call
    exact ⟨[], (List.append_nil _).symm, by simp, List.nil_prefix, by simp,
      fun _ _ => ⟨rfl, Or.inr harmless_nil⟩, fun _ _ _ => rfl⟩
  · obtain ⟨more, hcalls, hwrites, hmore, hsent, hall⟩ :=
      writeAll_wroteAll turns o (.ofBytes b.bytes)
    rw [Slice.toList_ofBytes] at hsent hall
    refine ⟨more, ?_⟩
    split
    · next heq =>
      rw [heq] at hcalls hmore hall
      exact ⟨hcalls, hwrites, hsent, fun _ => ⟨rfl, hall rfl, hmore⟩, by simp, by simp⟩
    · next x _ heq =>
      rw [heq] at hcalls hmore
      have hblames : Blames EndCall.error? more (x.map .writeIo) := Explains.blames hmore
      refine ⟨hcalls, hwrites, hsent, by simp, fun y hy => ?_, fun _ hx hunrefused => ?_⟩
      · cases hy
        exact ⟨rfl, hblames⟩
      · -- the last write has failed
        cases x with
        | outOfTurns => exact absurd rfl hx
        | failed e =>
            obtain ⟨c, hc, he⟩ := Explains.exists_mem hmore
            rw [hunrefused c hc (hwrites c hc)] at he
            cases he

theorem writeRemaining_writtenOut (turns : Nat) (b : DestinationBuffer) (o : Observed ε) :
    ∃ more, (b.writeRemaining turns o).2.2.calls = o.calls ++ more
      ∧ WrittenOut b (b.writeRemaining turns o).2.1 more (b.writeRemaining turns o).1 := by
  rw [writeRemaining]
  split
  · next hzero =>
    have hnil : b.bytes.data.toList = [] := List.length_eq_zero_iff.mp hzero
    have hempty : b.bytes = .empty := ByteArray.ext (Array.toList_inj.mp hnil)
    exact ⟨[], (List.append_nil _).symm, by simp, List.nil_prefix,
      fun _ => ⟨hempty, hnil.symm, harmless_nil⟩, by simp, by simp⟩
  · exact flush_writtenOut turns b o

end DestinationBuffer

end Writing

/-! ## Reading -/

namespace SourceBuffer

variable {ε : Type} [Reader ε]

omit [Reader ε] in
/-- Only the last call has failed, if any has. -/
theorem FillCalls.explains {b b' : SourceBuffer} {turns : Nat} {more : List EndCall}
    {result : Except (Halt Error) Refill} (h : FillCalls b turns more b' result) :
    Explains EndCall.error? more result := by
  induction h with
  | cut => exact harmless_nil
  | nothing | chunk => exact List.forall_mem_singleton.mpr rfl
  | failed he => exact ⟨[], _, rfl, harmless_nil, if_neg he⟩
  | interrupted he _ ih => exact ih.of_cons (if_pos he)

/-- **A refill stops at the first failure**, or is refused where all the source is pending. -/
theorem refill_explained (turns : Nat) (b : SourceBuffer) (o : Observed ε) :
    ∃ more, (b.refill turns o).2.2.calls = o.calls ++ more
      ∧ (Explains EndCall.error? more (b.refill turns o).1
        ∨ more = [] ∧ b.pending.size = b.capacity
          ∧ (b.refill turns o).1 = .error (.failed .notEnoughSourceBuffer)) := by
  rw [refill]
  split
  · next hfull =>
    rw [size_compact, capacity_compact] at hfull
    exact ⟨[], (List.append_nil _).symm, Or.inr ⟨rfl, hfull, rfl⟩⟩
  · obtain ⟨more, hcalls, hmore⟩ := fill_fillCalls turns b.compact o
    exact ⟨more, hcalls, Or.inl hmore.explains⟩

/-- A refill of a source that is not all pending fails only if a read does. -/
theorem refill_of_room (turns : Nat) {b : SourceBuffer} (o : Observed ε) (hb : b.Fits)
    (hroom : b.pending.size < b.capacity) :
    ∃ more, (b.refill turns o).2.2.calls = o.calls ++ more
      ∧ Refilled b (b.refill turns o).2.1 more (b.refill turns o).1
      ∧ Explains EndCall.error? more (b.refill turns o).1 := by
  have hnot : b.compact.bytes.size ≠ b.compact.capacity := by
    rw [size_compact, capacity_compact]
    exact Nat.ne_of_lt hroom
  obtain ⟨more, hcalls, hmore⟩ := fill_fillCalls turns b.compact o
  rw [refill_of_not_full hnot]
  exact ⟨more, hcalls, (hmore.refilled hb.compact hnot).of_compact, hmore.explains⟩

end SourceBuffer

end Zstandard
