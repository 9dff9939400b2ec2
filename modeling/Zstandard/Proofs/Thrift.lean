import Zstandard.Proofs.Buffers
import Zstandard.Proofs.Calls
import Zstandard.Proofs.Turns

/-!
# Runs that do not spin

A codec may refuse to use and to put out anything for ever. A driver does not spin on such a codec
if each step is paid for: by bytes that were received, or by bytes that were put out. `Thrifty` says
so of a call, at the moment when it is made; `NeverSpins` says it of all calls of a run, and that
the run comes to its end unless there is no end to what it receives, puts out, or is interrupted by.

That a run comes to its end is shown from the other side: a run whose turns have run out has done
something in each of them, a step or a call of its ends that moves bytes or is interrupted. So the
turns are at most what there is to do (`returns_of_busy`).
-/

namespace Zstandard

/-! ## What ends have done -/

namespace EndCall

/-- Whether the call was interrupted. -/
def interrupted : EndCall → Bool
  | .read _ (.error e) => decide (e.kind = .interrupted)
  | .write _ (.error e) => decide (e.kind = .interrupted)
  | _ => false

end EndCall

/-- How many calls were interrupted. -/
def interruptions (calls : List EndCall) : Nat := calls.countP EndCall.interrupted

/-- How many bytes some calls have moved, and how often they were interrupted. -/
def traffic (calls : List EndCall) : Nat :=
  (receivedBy calls).length + (acceptedBy calls).length + interruptions calls

@[simp] theorem traffic_nil : traffic [] = 0 := rfl

theorem traffic_append (a b : List EndCall) : traffic (a ++ b) = traffic a + traffic b := by
  simp only [traffic, receivedBy_append, acceptedBy_append, interruptions, List.countP_append,
    List.length_append]
  omega

theorem traffic_le_append (a b : List EndCall) : traffic a ≤ traffic (a ++ b) := by
  rw [traffic_append]
  exact Nat.le_add_right _ _

/-- The calls of some ends in some turns: if the turns have run out, each has seen some traffic. -/
structure Busy {ε α : Type} (turns : Nat) (before after : List EndCall)
    (result : Except (Halt ε) α) : Prop where
  /-- No call is taken back. -/
  le : traffic before ≤ traffic after
  /-- Each of the turns has seen some traffic. -/
  turns : result = .error .outOfTurns → traffic before + turns ≤ traffic after

section Busy

variable {ε δ α β : Type} {turns : Nat} {before between after : List EndCall}

theorem Busy.of_le {result : Except (Halt ε) α} (h : traffic before ≤ traffic after)
    (hresult : result ≠ .error .outOfTurns) : Busy turns before after result :=
  ⟨h, fun hcut => absurd hcut hresult⟩

/-- No turn needs no traffic. -/
theorem Busy.zero (before : List EndCall) (result : Except (Halt ε) α) :
    Busy 0 before before result :=
  ⟨Nat.le_refl _, fun _ => Nat.le_refl _⟩

/-- One more turn, with one more call. -/
theorem Busy.succ {result : Except (Halt ε) α} {c : EndCall}
    (h : Busy turns (before ++ [c]) after result) (hc : 0 < traffic [c]) :
    Busy (turns + 1) before after result := by
  have hcall := traffic_append before [c]
  refine ⟨?_, fun hcut => ?_⟩
  · have := h.le
    omega
  · have := h.turns hcut
    omega

/-- The same turns seen as those of something else. -/
theorem Busy.congr {result : Except (Halt ε) α} {result' : Except (Halt δ) β}
    (h : Busy turns before after result)
    (hresult : result' = .error .outOfTurns → result = .error .outOfTurns) :
    Busy turns before after result' :=
  ⟨h.le, fun hcut => h.turns (hresult hcut)⟩

end Busy

theorem WriteCalls.busy {s : Slice} {more : List EndCall} {result : Except (Halt IoError) Unit}
    {turns : Nat} (h : WriteCalls turns s more result) (before : List EndCall) :
    Busy turns before (before ++ more) result := by
  induction h generalizing before with
  | done => exact .of_le (traffic_le_append _ _) (by simp)
  | cut =>
      rw [List.append_nil]
      exact .zero _ _
  | nothing | failed => exact .of_le (traffic_le_append _ _) (by simp)
  | @taken _ n s _ _ hs hn _ ih =>
      rw [List.append_cons]
      refine (ih _).succ ?_
      -- something is left, and some of it was taken
      have hsize := size_pos_of_isEmpty hs
      have hlen : (EndCall.accepted (.write s (.ok n))).length = min n s.size := by
        rw [EndCall.accepted, List.length_take, Slice.length_toList]
      simp only [traffic, acceptedBy_cons, List.length_append, hlen]
      omega
  | interrupted _ he _ ih =>
      rw [List.append_cons]
      refine (ih _).succ ?_
      simp [traffic, interruptions, EndCall.interrupted, he]

/-- **Writing everything** is busy. -/
theorem writeAll_busy {ω : Type} [Writer ω] (turns : Nat) (o : Observed ω) (s : Slice) :
    Busy turns o.calls (writeAll turns o s).2.calls (writeAll turns o s).1 := by
  obtain ⟨more, hcalls, hmore⟩ := writeAll_writeCalls turns o s
  rw [hcalls]
  exact hmore.busy o.calls

namespace SourceBuffer

variable {ρ : Type} [Reader ρ]

omit [Reader ρ] in
theorem FillCalls.busy {b b' : SourceBuffer} {turns : Nat} {more : List EndCall}
    {result : Except (Halt Error) Refill} (h : FillCalls b turns more b' result)
    (before : List EndCall) : Busy turns before (before ++ more) result := by
  induction h generalizing before with
  | cut =>
      rw [List.append_nil]
      exact .zero _ _
  | nothing | chunk | failed => exact .of_le (traffic_le_append _ _) (by simp)
  | interrupted he _ ih =>
      rw [List.append_cons]
      refine (ih _).succ ?_
      simp [traffic, interruptions, EndCall.interrupted, he]

/-- **A refill** is busy. -/
theorem refill_busy (turns : Nat) (b : SourceBuffer) (o : Observed ρ) :
    Busy turns o.calls (b.refill turns o).2.2.calls (b.refill turns o).1 := by
  rw [refill]
  split
  · exact .of_le (Nat.le_refl _) (by simp)
  · obtain ⟨more, hcalls, hmore⟩ := fill_fillCalls turns b.compact o
    rw [hcalls]
    exact hmore.busy o.calls

end SourceBuffer

namespace DestinationBuffer

variable {ω : Type} [Writer ω]

/-- **A flush** is busy. -/
theorem flush_busy (turns : Nat) (b : DestinationBuffer) (o : Observed ω) :
    Busy turns o.calls (b.flush turns o).2.2.calls (b.flush turns o).1 := by
  rw [flush]
  split
  · exact .of_le (Nat.le_refl _) (by simp)
  · have hbusy := writeAll_busy turns o (.ofBytes b.bytes)
    split
    · next heq =>
      rw [heq] at hbusy
      exact hbusy.congr (by simp)
    · next e w heq =>
      rw [heq] at hbusy
      refine hbusy.congr fun hcut => ?_
      cases e with
      | failed => cases hcut
      | outOfTurns => rfl

/-- Writing out what is left hands a beginning of it to the writer, and makes no read. -/
theorem writeRemaining_calls (turns : Nat) (b : DestinationBuffer) (o : Observed ω) :
    ∃ more, (b.writeRemaining turns o).2.2.calls = o.calls ++ more
      ∧ (∀ c ∈ more, c.isRead = false) ∧ acceptedBy more <+: b.bytes.data.toList := by
  rw [writeRemaining]
  split
  · exact ⟨[], (List.append_nil _).symm, by simp, List.nil_prefix⟩
  · obtain ⟨more, hcalls, hreads, haccepted, -⟩ := b.flush_calls turns o
    exact ⟨more, hcalls, hreads, haccepted⟩

theorem writeRemaining_busy (turns : Nat) (b : DestinationBuffer) (o : Observed ω) :
    Busy turns o.calls (b.writeRemaining turns o).2.2.calls (b.writeRemaining turns o).1 := by
  rw [writeRemaining]
  split
  · exact .of_le (Nat.le_refl _) (by simp)
  · exact flush_busy turns b o

end DestinationBuffer

/-! ## Halted runs -/

/-- A run was halted in a state where `P` tells how much has been done: if its turns have run out,
no less than what was due. -/
def Ceased {ε σ : Type} (P : Nat → σ → Prop) (due : Nat) (x : Halt ε) (s : σ) : Prop :=
  ∃ n, P n s ∧ (x = .outOfTurns → due ≤ n)

section Ceased

variable {ε σ : Type} {P : Nat → σ → Prop} {due due' n : Nat} {x : Halt ε} {s : σ}

theorem Ceased.of_le (h : P n s) (hdue : due ≤ n) : Ceased P due x s := ⟨n, h, fun _ => hdue⟩

theorem Ceased.of_ne (h : P n s) (hx : x ≠ .outOfTurns) : Ceased P due x s :=
  ⟨n, h, fun hcut => absurd hcut hx⟩

theorem Ceased.mono (h : Ceased P due' x s) (hle : due ≤ due') : Ceased P due x s := by
  obtain ⟨n, hn, hdue⟩ := h
  exact ⟨n, hn, fun hx => Nat.le_trans hle (hdue hx)⟩

end Ceased

/-! ## Calls that are paid for -/

/-- What a call is offered has been received, and there were few calls before it: no more than
three for each byte received or put out so far, and three. -/
def Thrifty (received : List UInt8) (before : List StepCall) (call : StepCall) : Prop :=
  takenBy before ++ call.input.toList <+: received
    ∧ before.length + 1
      ≤ 3 * ((takenBy before ++ call.input.toList).length + (givenBy before).length) + 3

section Thrifty

variable {received received' : List UInt8} {calls : List StepCall}

theorem Thrifty.mono {call : StepCall} (h : Thrifty received calls call)
    (hreceived : received <+: received') : Thrifty received' calls call :=
  ⟨h.1.trans hreceived, h.2⟩

theorem each_thrifty_mono (h : Each (Thrifty received) calls) (hreceived : received <+: received') :
    Each (Thrifty received') calls :=
  h.mono fun _ _ _ _ hcall => hcall.mono hreceived

/-- There are few calls if the last of them is thrifty. -/
theorem length_le_of_thrifty (h : Each (Thrifty received) calls) :
    calls.length ≤ 3 * (received.length + (givenBy calls).length) + 3 := by
  rcases List.eq_nil_or_concat calls with rfl | ⟨calls, call, rfl⟩
  · exact Nat.zero_le _
  · rw [List.concat_eq_append] at h ⊢
    obtain ⟨-, hoffered, hfew⟩ := each_snoc.mp h
    have hle := hoffered.length_le
    rw [List.length_append, List.length_singleton, length_givenBy_snoc]
    omega

end Thrifty

/-! ## Runs -/

/-- What is seen of a run that was given some turns. -/
structure Sight (ε α : Type) where
  result : Except (Halt ε) α
  /-- What there was for the codec so far. -/
  received : List UInt8
  /-- The steps of the codec. -/
  steps : List StepCall
  /-- How often an end was interrupted. -/
  interruptions : Nat

namespace Sight

variable {ε α : Type}

/-- What there was to do in the run. -/
def extent (s : Sight ε α) : Nat :=
  s.received.length + (givenBy s.steps).length + s.interruptions

/-- With turns enough, the run comes to a value or to an error, and to the same with more. -/
def Returns (run : Nat → Sight ε α) : Prop :=
  ∃ s, Settles run s ∧ s.result ≠ .error .outOfTurns

end Sight

/-- **A run that does not spin.** -/
structure NeverSpins {ε α : Type} (run : Nat → Sight ε α) : Prop where
  /-- Each step is paid for when it is made. -/
  thrifty : ∀ turns, Each (Thrifty (run turns).received) (run turns).steps
  /-- If there is a bound on what there is to do, the run comes to its end. -/
  returns : ∀ bound, (∀ turns, (run turns).extent ≤ bound) → Sight.Returns run

/-- A run comes to its end if there is a bound on what there is to do, and something is done in each
turn. -/
theorem returns_of_busy {ε α : Type} {run : Nat → Sight ε α}
    (hstands : ∀ turns, (run turns).result ≠ .error .outOfTurns → run (turns + 1) = run turns)
    (hfew : ∀ turns, (run turns).steps.length
      ≤ 3 * ((run turns).received.length + (givenBy (run turns).steps).length) + 3)
    (hbusy : ∀ turns, (run turns).result = .error .outOfTurns →
      turns ≤ (run turns).steps.length + 2 * (run turns).extent + 3)
    {bound : Nat} (hbound : ∀ turns, (run turns).extent ≤ bound) : Sight.Returns run := by
  -- more turns than there are things to do do not run out
  have henough : (run (5 * bound + 7)).result ≠ .error .outOfTurns := by
    intro hcut
    have hturns := hbusy _ hcut
    have hsteps := hfew (5 * bound + 7)
    have hextent := hbound (5 * bound + 7)
    have hle : (run (5 * bound + 7)).received.length
        + (givenBy (run (5 * bound + 7)).steps).length ≤ (run (5 * bound + 7)).extent :=
      Nat.le_add_right _ _
    omega
  have hsettles : Settles (fun turns => ((run turns).result, run turns)) _ :=
    settles_of_stands (fun turns hturns => by rw [hstands turns hturns]) henough
  exact ⟨_, hsettles.imp fun _ heq => (Prod.mk.inj heq).2, henough⟩

/-- What is seen with some turns is thrifty, and if the turns have run out each has done
something. -/
structure Prudent {ε α : Type} (turns : Nat) (s : Sight ε α) : Prop where
  /-- Each step is paid for when it is made. -/
  thrifty : Each (Thrifty s.received) s.steps
  /-- There was something to do in all turns but three. -/
  busy : s.result = .error .outOfTurns → turns ≤ s.steps.length + 2 * s.extent + 3

/-- **A run that is prudent in all its turns does not spin.** -/
theorem neverSpins_of_prudent {ε α : Type} {run : Nat → Sight ε α}
    (hstands : ∀ turns, (run turns).result ≠ .error .outOfTurns → run (turns + 1) = run turns)
    (hprudent : ∀ turns, Prudent turns (run turns)) : NeverSpins run where
  thrifty turns := (hprudent turns).thrifty
  returns _ hbound := returns_of_busy hstands
    (fun turns => length_le_of_thrifty (hprudent turns).thrifty)
    (fun turns => (hprudent turns).busy) hbound

end Zstandard
