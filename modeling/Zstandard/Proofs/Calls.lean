import Zstandard.Script

/-!
# The calls of a codec

What a driver does to its codec is a list of calls, each with the input and the room that were
offered and with what came of it. `Steps` says that a list of calls leads a codec from one state to
another. The rest of what is said of a driver is said of that list:

* `takenBy` is the input that was used, `givenBy` the output that was put out;
* `Each` holds each call against those before it: `Feeds` is the rule of calls that take a source
  in order;
* `Quiescent` is where a codec has nothing more to put out, as far as its caller can see;
* `AtBoundary` is where a frame has ended and no other has been started.

`Recorded` keeps the list, so for a recorded codec these are facts about its record.
-/

namespace Zstandard

namespace StepCall

/-- The input that the step used. -/
def taken (c : StepCall) : List UInt8 :=
  match c.result with
  | .ok s => c.input.toList.take s.consumed
  | .error _ => []

/-- The output that the step put out. -/
def given (c : StepCall) : List UInt8 :=
  match c.result with
  | .ok s => s.produced.data.toList
  | .error _ => []

/-- Whether the step did not fail. -/
def succeeded (c : StepCall) : Bool :=
  match c.result with
  | .ok _ => true
  | .error _ => false

/-- Whether the step reported that nothing is to come. -/
def isDone (c : StepCall) : Bool :=
  match c.result with
  | .ok s => s.completion == .done
  | .error _ => false

/-- The step left a part of its room unused. -/
def LeavesRoom (c : StepCall) : Prop := c.given.length < c.room

theorem isDone_of_done {input : Slice} {room : Nat} {directive : Directive} {s : Step}
    (h : s.completion = .done) : isDone ⟨input, room, directive, .ok s⟩ = true := by
  show (s.completion == .done) = true
  rw [h]
  rfl

theorem isDone_of_pending {input : Slice} {room : Nat} {directive : Directive} {s : Step}
    (h : s.completion = .pending) : isDone ⟨input, room, directive, .ok s⟩ = false := by
  show (s.completion == .done) = false
  rw [h]
  rfl

theorem taken_prefix (c : StepCall) : c.taken <+: c.input.toList := by
  unfold taken
  split
  · exact List.take_prefix _ _
  · exact List.nil_prefix

/-- A step without input uses none. -/
theorem taken_of_size {c : StepCall} (h : c.input.size = 0) : c.taken = [] := by
  have hlen := c.taken_prefix.length_le
  rw [Slice.length_toList, h] at hlen
  exact List.length_eq_zero_iff.mp (Nat.le_zero.mp hlen)

end StepCall

/-- The input used by some calls. -/
def takenBy (calls : List StepCall) : List UInt8 := calls.flatMap StepCall.taken

/-- The output put out by some calls. -/
def givenBy (calls : List StepCall) : List UInt8 := calls.flatMap StepCall.given

@[simp] theorem takenBy_nil : takenBy [] = [] := rfl

@[simp] theorem givenBy_nil : givenBy [] = [] := rfl

@[simp] theorem takenBy_append (a b : List StepCall) :
    takenBy (a ++ b) = takenBy a ++ takenBy b := by
  simp [takenBy]

@[simp] theorem givenBy_append (a b : List StepCall) :
    givenBy (a ++ b) = givenBy a ++ givenBy b := by
  simp [givenBy]

@[simp] theorem takenBy_cons (c : StepCall) (calls : List StepCall) :
    takenBy (c :: calls) = c.taken ++ takenBy calls := rfl

@[simp] theorem givenBy_cons (c : StepCall) (calls : List StepCall) :
    givenBy (c :: calls) = c.given ++ givenBy calls := rfl

/-- A call without input uses none. -/
theorem takenBy_snoc_of_size {calls : List StepCall} {c : StepCall} (h : c.input.size = 0) :
    takenBy (calls ++ [c]) = takenBy calls := by
  rw [takenBy_append, takenBy_cons, takenBy_nil, StepCall.taken_of_size h, List.append_nil,
    List.append_nil]

theorem length_givenBy_snoc (calls : List StepCall) (c : StepCall) :
    (givenBy (calls ++ [c])).length = (givenBy calls).length + c.given.length := by
  rw [givenBy_append, givenBy_cons, givenBy_nil, List.append_nil, List.length_append]

section Snoc

variable {calls : List StepCall} {input : Slice} {room : Nat} {directive : Directive} {s : Step}

theorem takenBy_snoc_ok : takenBy (calls ++ [⟨input, room, directive, .ok s⟩])
    = takenBy calls ++ input.toList.take s.consumed := by
  simp [StepCall.taken]

theorem givenBy_snoc_ok : givenBy (calls ++ [⟨input, room, directive, .ok s⟩])
    = givenBy calls ++ s.produced.data.toList := by
  simp [StepCall.given]

theorem length_givenBy_snoc_ok : (givenBy (calls ++ [⟨input, room, directive, .ok s⟩])).length
    = (givenBy calls).length + s.produced.size :=
  length_givenBy_snoc calls _

/-- One more call that has not failed. -/
theorem succeeded_snoc (h : ∀ c ∈ calls, c.succeeded = true) :
    ∀ c ∈ calls ++ [⟨input, room, directive, .ok s⟩], c.succeeded = true :=
  List.forall_mem_append.mpr ⟨h, List.forall_mem_singleton.mpr rfl⟩

end Snoc

/-! ## Each element after those before it -/

/-- Each element of a list stands in `P` to the elements before it. -/
def Each {α : Type} (P : List α → α → Prop) (l : List α) : Prop :=
  ∀ before a after, l = before ++ a :: after → P before a

theorem each_nil {α : Type} {P : List α → α → Prop} : Each P [] := by
  intro before a after h
  simp at h

theorem each_snoc {α : Type} {P : List α → α → Prop} {l : List α} {a : α} :
    Each P (l ++ [a]) ↔ Each P l ∧ P l a := by
  constructor
  · intro h
    refine ⟨fun before b after hl => h before b (after ++ [a]) ?_, h l a [] rfl⟩
    rw [hl, List.append_assoc, List.cons_append]
  · intro ⟨hl, ha⟩ before b after heq
    -- the element is the last one, or stands before it
    rcases List.eq_nil_or_concat after with rfl | ⟨after, c, rfl⟩
    · obtain ⟨rfl, hb⟩ := List.append_inj' heq rfl
      rw [← List.singleton_inj.mp hb]
      exact ha
    · rw [List.concat_eq_append, ← List.cons_append, ← List.append_assoc] at heq
      exact hl before b after (List.append_inj' heq rfl).1

theorem Each.mono {α : Type} {P Q : List α → α → Prop} {l : List α} (h : Each P l)
    (hPQ : ∀ before a after, l = before ++ a :: after → P before a → Q before a) : Each Q l :=
  fun before a after hl => hPQ before a after hl (h before a after hl)

/-- What each element satisfies whatever stands before it holds of every member. -/
theorem Each.forall_mem {α : Type} {P : List α → α → Prop} {l : List α} (h : Each P l) {a : α}
    (ha : a ∈ l) : ∃ before, P before a := by
  obtain ⟨before, after, hl⟩ := List.append_of_mem ha
  exact ⟨before, h before a after hl⟩

/-- What holds of the last element of a list holds of whichever is the last one. -/
theorem forall_last_snoc {α : Type} {P : α → Prop} {l : List α} {a : α} (h : P a) :
    ∀ last ∈ (l ++ [a]).getLast?, P last := by
  intro last hlast
  rw [List.getLast?_concat] at hlast
  exact Option.some.inj hlast ▸ h

/-! ## From state to state -/

/-- The codec gets from `start` to a state by some calls, the latest last. -/
inductive Steps {κ : Type} [Codec κ] (start : κ) : List StepCall → κ → Prop where
  | nil : Steps start [] start
  | snoc {calls : List StepCall} {codec codec' : κ} {input : Slice} {room : Nat}
      {directive : Directive} {result : Except Error Step} :
      Steps start calls codec → Codec.step codec input room directive = (result, codec') →
      Steps start (calls ++ [⟨input, room, directive, result⟩]) codec'

section Steps

variable {κ : Type} [Codec κ]

/-- A step uses as much of its input as it says. -/
theorem length_taken {codec codec' : κ} {input : Slice} {room : Nat} {directive : Directive}
    {s : Step} (h : Codec.step codec input room directive = (.ok s, codec')) :
    (StepCall.taken ⟨input, room, directive, .ok s⟩).length = s.consumed := by
  have hle := Codec.consumed_le h
  simp only [StepCall.taken, List.length_take, Slice.length_toList]
  omega

theorem length_takenBy_snoc_ok {codec codec' : κ} {input : Slice} {room : Nat}
    {directive : Directive} {s : Step}
    (h : Codec.step codec input room directive = (.ok s, codec')) (calls : List StepCall) :
    (takenBy (calls ++ [⟨input, room, directive, .ok s⟩])).length
      = (takenBy calls).length + s.consumed := by
  rw [takenBy_append, takenBy_cons, takenBy_nil, List.append_nil, List.length_append,
    length_taken h]

/-- The calls of a recorded codec are those of its record. -/
theorem Steps.recorded {start codec : Recorded κ} {calls : List StepCall}
    (h : Steps start calls codec) : codec.calls.toList = start.calls.toList ++ calls := by
  induction h with
  | nil => simp
  | @snoc calls codec codec' input room directive result _ hstep ih =>
      have hc : codec'.calls = codec.calls.push ⟨input, room, directive, result⟩ := by
        have h' : codec.step input room directive = (result, codec') := hstep
        rw [Recorded.step] at h'
        cases h'
        rfl
      rw [hc, Array.toList_push, ih, List.append_assoc]

/-- The calls of a framed codec are calls of the codec in it. -/
theorem Steps.unframed {start framed : Framed κ} {calls : List StepCall}
    (h : Steps start calls framed) : Steps start.codec calls framed.codec := by
  induction h with
  | nil => exact .nil
  | @snoc calls framed framed' input room directive result _ hstep ih =>
      refine .snoc ih ?_
      have h' : framed.step input room directive = (result, framed') := hstep
      cases result with
      | ok s => exact Framed.step_ok h'
      | error e =>
          unfold Framed.step at h'
          split at h'
          · next heq => cases h'; exact heq
          · split at h' <;> simp at h'

end Steps

/-! ## Feeding a source -/

/-- The call takes input and has room, and its input is what comes next in the source. -/
def Feeds (source : List UInt8) (before : List StepCall) (call : StepCall) : Prop :=
  call.directive = .feed ∧ 0 < call.room ∧ takenBy before ++ call.input.toList <+: source

theorem Feeds.mono {source source' : List UInt8} {before : List StepCall} {call : StepCall}
    (h : Feeds source before call) (hs : source <+: source') : Feeds source' before call :=
  ⟨h.1, h.2.1, h.2.2.trans hs⟩

/-- Calls that feed a source have used a beginning of it. -/
theorem takenBy_prefix {source : List UInt8} {calls : List StepCall}
    (h : Each (Feeds source) calls) : takenBy calls <+: source := by
  -- the last call was offered what comes next, after all that was used
  rcases List.eq_nil_or_concat calls with rfl | ⟨calls, call, rfl⟩
  · exact List.nil_prefix
  · rw [List.concat_eq_append] at h ⊢
    rw [takenBy_append, takenBy_cons, takenBy_nil, List.append_nil]
    exact ((List.prefix_append_right_inj _).mpr call.taken_prefix).trans (each_snoc.mp h).2.2.2

/-- The codec gets from `start` to a state by calls that feed it `source` and do not fail. -/
structure Feeding {κ : Type} [Codec κ] (start : κ) (source : List UInt8) (calls : List StepCall)
    (codec : κ) : Prop where
  /-- The calls lead there. -/
  steps : Steps start calls codec
  /-- Each is offered what comes next, and room. -/
  feeds : Each (Feeds source) calls
  /-- None has failed. -/
  succeeded : ∀ c ∈ calls, c.succeeded = true

section Feeding

variable {κ : Type} [Codec κ]

theorem Feeding.nil {start : κ} {source : List UInt8} : Feeding start source [] start :=
  ⟨.nil, each_nil, by simp⟩

theorem Feeding.snoc {start codec codec' : κ} {source : List UInt8} {calls : List StepCall}
    {input : Slice} {room : Nat} {s : Step} (h : Feeding start source calls codec)
    (hroom : 0 < room) (hinput : takenBy calls ++ input.toList <+: source)
    (hstep : Codec.step codec input room .feed = (.ok s, codec')) :
    Feeding start source (calls ++ [⟨input, room, .feed, .ok s⟩]) codec' where
  steps := h.steps.snoc hstep
  feeds := each_snoc.mpr ⟨h.feeds, rfl, hroom, hinput⟩
  succeeded := succeeded_snoc h.succeeded

theorem Feeding.mono {start codec : κ} {source source' : List UInt8} {calls : List StepCall}
    (h : Feeding start source calls codec) (hs : source <+: source') :
    Feeding start source' calls codec :=
  ⟨h.steps, h.feeds.mono fun _ _ _ _ hf => hf.mono hs, h.succeeded⟩

end Feeding

/-- No call was made, or the last one left room and used all its input. -/
def Quiescent (calls : List StepCall) : Prop :=
  ∀ last ∈ calls.getLast?, last.LeavesRoom ∧ last.taken = last.input.toList

/-- A step that leaves room, and nothing of its input. -/
theorem quiescent_snoc {calls : List StepCall} {input : Slice} {room : Nat} {directive : Directive}
    {s : Step} (hleaves : s.produced.size < room) (hused : (input.drop s.consumed).toList = []) :
    Quiescent (calls ++ [⟨input, room, directive, .ok s⟩]) := by
  refine forall_last_snoc ⟨hleaves, ?_⟩
  show input.toList.take s.consumed = input.toList
  rw [Slice.toList_drop] at hused
  rw [← List.append_nil (input.toList.take s.consumed), ← hused, List.take_append_drop]

/-! ## Frame boundaries -/

/-- Nothing was used, or nothing was used after the last call that reported a frame complete. -/
def AtBoundary (calls : List StepCall) : Prop :=
  takenBy calls = [] ∨
    ∃ before last after, calls = before ++ last :: after ∧ last.isDone = true
      ∧ takenBy after = [] ∧ ∀ c ∈ after, c.isDone = false

theorem atBoundary_nil : AtBoundary [] := Or.inl rfl

/-- A call ends at a boundary if it completes a frame, or if it uses nothing at a boundary. -/
theorem atBoundary_snoc {calls : List StepCall} {c : StepCall} :
    AtBoundary (calls ++ [c]) ↔ c.isDone = true ∨ (c.taken = [] ∧ AtBoundary calls) := by
  constructor
  · rintro (h | ⟨before, last, after, heq, hlast, htaken, hafter⟩)
    · simp only [takenBy_append, takenBy_cons, takenBy_nil, List.append_nil,
        List.append_eq_nil_iff] at h
      exact Or.inr ⟨h.2, Or.inl h.1⟩
    · rcases List.eq_nil_or_concat after with rfl | ⟨after, d, rfl⟩
      · obtain ⟨_, hc⟩ := List.append_inj' heq rfl
        rw [List.singleton_inj.mp hc]
        exact Or.inl hlast
      · -- the call stands behind the one that completed a frame
        rw [List.concat_eq_append] at heq htaken hafter
        rw [← List.cons_append, ← List.append_assoc] at heq
        obtain ⟨hcalls, hd⟩ := List.append_inj' heq rfl
        obtain rfl := List.singleton_inj.mp hd
        simp only [takenBy_append, takenBy_cons, takenBy_nil, List.append_nil,
          List.append_eq_nil_iff] at htaken
        exact Or.inr ⟨htaken.2, Or.inr ⟨before, last, after, hcalls, hlast, htaken.1,
          fun x hx => hafter x (List.mem_append_left _ hx)⟩⟩
  · rintro (hdone | ⟨htaken, h⟩)
    · exact Or.inr ⟨calls, c, [], rfl, hdone, rfl, by simp⟩
    · by_cases hdone : c.isDone = true
      · exact Or.inr ⟨calls, c, [], rfl, hdone, rfl, by simp⟩
      · -- the boundary before the call is the boundary after it
        rcases h with h | ⟨before, last, after, rfl, hlast, hta, hafter⟩
        · exact Or.inl (by simp [h, htaken])
        · refine Or.inr ⟨before, last, after ++ [c], by simp, hlast, by simp [hta, htaken], ?_⟩
          intro x hx
          rcases List.mem_append.mp hx with hx | hx
          · exact hafter x hx
          · rw [List.mem_singleton.mp hx]
            simpa using hdone

/-- Whether a frame is open after a call. -/
def openAfter (isOpen : Bool) (c : StepCall) : Bool :=
  !c.isDone && (isOpen || !c.taken.isEmpty)

theorem framed_step_inFrame {κ : Type} [Codec κ] {f f' : Framed κ} {input : Slice} {room : Nat}
    {directive : Directive} {result : Except Error Step}
    (h : Codec.step f input room directive = (result, f')) :
    f'.inFrame = openAfter f.inFrame ⟨input, room, directive, result⟩ := by
  have h' : f.step input room directive = (result, f') := h
  cases result with
  -- a failed step uses nothing, and leaves a frame open or not as it was
  | error e =>
      unfold Framed.step at h'
      split at h'
      · cases h'; simp [openAfter, StepCall.isDone, StepCall.taken]
      · split at h' <;> simp at h'
  | ok s =>
      have hlen := length_taken h
      have hemp : (StepCall.taken ⟨input, room, directive, .ok s⟩).isEmpty = (s.consumed == 0) := by
        rw [← hlen]
        cases StepCall.taken ⟨input, room, directive, .ok s⟩ <;> rfl
      unfold Framed.step at h'
      split at h'
      · simp at h'
      · split at h'
        · next hdone => cases h'; simp [openAfter, StepCall.isDone, hdone]
        · next hpending =>
          cases h'
          simp only [openAfter, hemp, StepCall.isDone, hpending]
          cases f.inFrame <;> rfl

/-- **A framed codec knows whether a frame is open.** From a codec without an open frame, none is
open exactly where the calls are at a boundary. -/
theorem Steps.inFrame_eq_false_iff {κ : Type} [Codec κ] {start f : Framed κ}
    {calls : List StepCall} (h : Steps start calls f) (hstart : start.inFrame = false) :
    f.inFrame = false ↔ AtBoundary calls := by
  induction h with
  | nil => exact iff_of_true hstart atBoundary_nil
  | @snoc calls f f' input room directive result _ hstep ih =>
      rw [framed_step_inFrame hstep, atBoundary_snoc, ← ih, openAfter]
      cases StepCall.isDone ⟨input, room, directive, result⟩ <;> simp [and_comm]

end Zstandard
