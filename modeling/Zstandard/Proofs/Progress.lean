import Zstandard.Proofs.Failures
import Zstandard.Proofs.OneShot
import Zstandard.Proofs.Pump

/-!
# Drivers of a codec that makes progress

A codec makes progress if a step that is fed something and leaves room has used some of it
(`Progressing`); it fills its room if a step without input that is not done has done so (`Filling`).
That is enough for any driver and any positive buffer length: before each step there is room in the
destination, and before each read there is room in the source. So whatever a pump or a one-shot
operation halts with is the failure of a call (`Blamed`), and never that it is stuck. Only the end
of the input may still be refused, behind all of it (`Refuses`).
-/

namespace Zstandard

/-! ## Codecs that make progress -/

/-- A call that is fed something and leaves room has used some of it. -/
def StepCall.Advances (c : StepCall) : Prop :=
  c.directive = .feed → c.succeeded = true → c.input.size ≠ 0 → c.room ≠ 0 → c.LeavesRoom →
    c.taken ≠ []

/-- A call that is fed nothing and is not done has filled its room. -/
def StepCall.Fills (c : StepCall) : Prop :=
  c.directive ≠ .feed → c.succeeded = true → c.isDone = false → ¬ c.LeavesRoom

/-- Each call that feeds the codec advances, from `start` on. -/
def Progressing {κ : Type} [Codec κ] (start : κ) : Prop :=
  ∀ calls codec, Steps start calls codec → ∀ c ∈ calls, c.Advances

/-- Each other call fills its room, from `start` on, or is done. -/
def Filling {κ : Type} [Codec κ] (start : κ) : Prop :=
  ∀ calls codec, Steps start calls codec → ∀ c ∈ calls, c.Fills

/-- The calls lead to the codec, and each of them had room. -/
structure Roomy {κ : Type} [Codec κ] (start : κ) (calls : List StepCall) (codec : κ) : Prop where
  steps : Steps start calls codec
  room : ∀ c ∈ calls, 0 < c.room

/-- The failure is that of one of the calls. -/
def FromCall (calls : List StepCall) (ends : List EndCall) (e : Error) : Prop :=
  (∃ c ∈ calls, c.error? = some e) ∨ ∃ c ∈ ends, c.error? = some e

section Progressing

variable {κ : Type} [Codec κ] {start codec codec' : κ} {calls : List StepCall} {input : Slice}
  {room : Nat} {directive : Directive}

theorem roomy_nil (start : κ) : Roomy start [] start := ⟨.nil, by simp⟩

theorem Roomy.snoc {result : Except Error Step} (h : Roomy start calls codec)
    (hstep : Codec.step codec input room directive = (result, codec')) (hroom : 0 < room) :
    Roomy start (calls ++ [⟨input, room, directive, result⟩]) codec' :=
  ⟨h.steps.snoc hstep, List.forall_mem_append.mpr ⟨h.room, List.forall_mem_singleton.mpr hroom⟩⟩

theorem FromCall.of_step {ends : List EndCall} {e : Error} :
    FromCall (calls ++ [⟨input, room, directive, .error e⟩]) ends e :=
  Or.inl ⟨_, List.mem_append_right _ (List.mem_singleton_self _), rfl⟩

/-- A step that is fed something and leaves room has used some of it. -/
theorem Progressing.consumed_pos {s : Step} (h : Progressing start)
    (hsteps : Steps start calls codec)
    (hstep : Codec.step codec input room .feed = (.ok s, codec')) (hinput : input.size ≠ 0)
    (hroom : 0 < room) (hleaves : s.produced.size < room) : 0 < s.consumed := by
  have hadvances := h _ _ (hsteps.snoc hstep) ⟨input, room, .feed, .ok s⟩
    (List.mem_append_right _ (List.mem_singleton_self _))
  have htaken := hadvances rfl rfl hinput (Nat.ne_of_gt hroom) hleaves
  rw [← length_taken hstep]
  exact List.length_pos_iff.mpr htaken

/-- A step that is fed something makes progress. -/
theorem Progressing.madeProgress {s : Step} (h : Progressing start)
    (hsteps : Steps start calls codec)
    (hstep : Codec.step codec input room .feed = (.ok s, codec')) (hinput : input.size ≠ 0)
    (hroom : 0 < room) : s.madeProgress = true := by
  have := fun hleaves => h.consumed_pos hsteps hstep hinput hroom hleaves
  simp only [Step.madeProgress, Bool.or_eq_true, bne_iff_ne]
  omega

/-- A step without input that has more to come has filled its room. -/
theorem Filling.room_le {s : Step} (h : Filling start) (hsteps : Steps start calls codec)
    (hdirective : directive ≠ .feed)
    (hstep : Codec.step codec input room directive = (.ok s, codec'))
    (hpending : s.completion = .pending) : room ≤ s.produced.size := by
  have hfills := h _ _ (hsteps.snoc hstep) ⟨input, room, directive, .ok s⟩
    (List.mem_append_right _ (List.mem_singleton_self _))
  exact Nat.not_lt.mp (hfills hdirective rfl (StepCall.isDone_of_pending hpending))

/-- The calls of a recorded codec are calls of the codec in it. -/
theorem Steps.unrecorded {start codec : Recorded κ} (h : Steps start calls codec) :
    Steps start.codec calls codec.codec := by
  induction h with
  | nil => exact .nil
  | snoc _ hstep ih => exact ih.snoc (Recorded.step_result hstep)

theorem Progressing.recorded (h : Progressing start) (calls : Array StepCall) :
    Progressing (⟨start, calls⟩ : Recorded κ) :=
  fun _ _ hsteps => h _ _ hsteps.unrecorded

theorem Filling.recorded (h : Filling start) (calls : Array StepCall) :
    Filling (⟨start, calls⟩ : Recorded κ) :=
  fun _ _ hsteps => h _ _ hsteps.unrecorded

theorem Progressing.framed {start : Recorded κ} (h : Progressing start) (inFrame : Bool) :
    Progressing (⟨start, inFrame⟩ : Framed (Recorded κ)) :=
  fun _ _ hsteps => h _ _ hsteps.unframed

/-- The end of some input is refused. All of the input has been used, and nothing more comes of
it. -/
structure Refuses (calls : List StepCall) (input : List UInt8) (codec : κ) (e : Error) : Prop where
  /-- All of the input has been used. -/
  used : takenBy calls = input
  /-- The last call left room, and nothing of its input. -/
  quiescent : Quiescent calls
  /-- The input may not end here. -/
  refused : Codec.endOfInput codec = .error e

/-- A halt that is not for want of turns is the failure of a call; each call had room. -/
def Blamed (start codec : κ) (ends : List EndCall) (x : Halt Error) : Prop :=
  ∃ calls, Roomy start calls codec ∧ ∀ e, x = .failed e → FromCall calls ends e

theorem Roomy.blamed_outOfTurns {ends : List EndCall} (h : Roomy start calls codec) :
    Blamed start codec ends .outOfTurns :=
  ⟨calls, h, by simp⟩

theorem Roomy.blamed {ends : List EndCall} {e : Error} (h : Roomy start calls codec)
    (hstep : Codec.step codec input room directive = (.error e, codec')) (hroom : 0 < room) :
    Blamed start codec' ends (.failed e) :=
  ⟨_, h.snoc hstep hroom, fun _ hx => by cases hx; exact .of_step⟩

theorem Roomy.blamed_of_explains {α : Type} {before more : List EndCall} {x : Halt Error}
    (h : Roomy start calls codec)
    (hmore : Explains EndCall.error? more (.error x : Except (Halt Error) α)) :
    Blamed start codec (before ++ more) x := by
  refine ⟨calls, h, fun e hx => ?_⟩
  subst hx
  obtain ⟨c, hc, he⟩ := hmore.exists_mem
  exact Or.inr ⟨c, List.mem_append_right _ hc, he⟩

end Progressing

/-- Output is written out until a write fails, if there is any. -/
theorem DestinationBuffer.flush_explained {ε : Type} [Writer ε] (turns : Nat)
    {b : DestinationBuffer} (o : Observed ε) (hne : b.bytes.size ≠ 0) :
    ∃ more, (b.flush turns o).2.2.calls = o.calls ++ more
      ∧ Explains EndCall.error? more (b.flush turns o).1 := by
  obtain ⟨more, hcalls, -, hmore, -⟩ := writeAll_wroteAll turns o (.ofBytes b.bytes)
  refine ⟨more, ?_⟩
  rw [flush, if_neg hne]
  split
  all_goals
    next heq =>
    rw [heq] at hcalls hmore
    exact ⟨hcalls, hmore⟩

/-- A buffer that was filled up holds something. -/
theorem DestinationBuffer.size_append_ne_zero {b : DestinationBuffer} (hroom : 0 < b.free)
    {produced : ByteArray} (hfull : (b.append produced).isFull = true) :
    (b.append produced).bytes.size ≠ 0 := by
  have hsize : (b.append produced).bytes.size = b.capacity := beq_iff_eq.mp hfull
  unfold free at hroom
  omega

/-- What fills the room that is left fills the buffer. -/
theorem DestinationBuffer.Fits.isFull_of_free_le {b : DestinationBuffer} (h : b.Fits)
    {produced : ByteArray} (hp : produced.size ≤ b.free) (hle : b.free ≤ produced.size) :
    (b.append produced).isFull = true := by
  rw [← Bool.not_eq_false, isFull_append h hp]
  omega

/-! ## Pumps -/

namespace Pump

variable {κ ε : Type} [Codec κ]

/-- Each call of the codec had room, and so will the next. -/
structure Primed (start : κ) (p : Pump κ (Observed ε)) : Prop where
  roomy : ∃ calls, Roomy start calls p.codec
  source_fits : p.source.Fits
  destination_fits : p.destination.Fits
  room : p.destination.isFull = false

variable {start : κ} {p : Pump κ (Observed ε)}

theorem Primed.blamed_outOfTurns (h : Primed start p) :
    Blamed start p.codec p.ends.calls .outOfTurns := by
  obtain ⟨calls, hroomy⟩ := h.roomy
  exact hroomy.blamed_outOfTurns

theorem Primed.free_pos (h : Primed start p) : 0 < p.destination.free :=
  h.destination_fits.free_pos_iff.mpr h.room

/-- A step that is fed what is pending. It uses some of it unless it fills the destination. -/
theorem Primed.feed (hstart : Progressing start) (h : Primed start p) :
    Ensures feed p
      (fun s p' => (∃ calls, Roomy start calls p'.codec)
        ∧ p'.source = p.source.consume s.consumed ∧ p'.source.Fits
        ∧ p'.destination = p.destination.append s.produced ∧ p'.destination.Fits
        ∧ (p.source.pending.size ≠ 0 → s.madeProgress = true)
        ∧ (p.source.pending.size ≠ 0 → p'.destination.isFull = false → 0 < s.consumed)
        ∧ (p'.destination.isFull = true → s.madeProgress = true))
      (fun x p' => Blamed start p'.codec p'.ends.calls x) := by
  obtain ⟨codec, ends, source, destination, readTotal, writtenTotal, log⟩ := p
  obtain ⟨calls, hroomy⟩ := h.roomy
  have hfree := h.free_pos
  refine Ensures.intro (fun s p' hw => ?_) (fun x p' hw => ?_)
  · dsimp only [Pump.feed] at hw
    split at hw <;> cases hw
    next codec' hstep =>
    have hle := Codec.produced_le hstep
    refine ⟨⟨_, hroomy.snoc hstep hfree⟩, rfl, h.source_fits.consume (Codec.consumed_le hstep),
      rfl, h.destination_fits.append hle, fun hinput => ?_, fun hinput hfull => ?_, fun hfull => ?_⟩
    · exact hstart.madeProgress hroomy.steps hstep hinput hfree
    · exact hstart.consumed_pos hroomy.steps hstep hinput hfree
        ((DestinationBuffer.isFull_append h.destination_fits hle).mp hfull)
    · have hne := DestinationBuffer.size_ne_zero_of_isFull h.destination_fits hfree hle hfull
      simp [Step.madeProgress, hne]
  · dsimp only [Pump.feed] at hw
    split at hw <;> cases hw
    next hstep => exact hroomy.blamed hstep hfree

/-- Writing out a destination that holds something makes room in it. -/
theorem flush_primed [Writer ε] (turns : Nat) (hroomy : ∃ calls, Roomy start calls p.codec)
    (hsource : p.source.Fits) (hfits : p.destination.Fits) (hne : p.destination.bytes.size ≠ 0) :
    Ensures (flush turns) p (fun _ p' => Primed start p' ∧ p'.source = p.source)
      (fun x p' => Blamed start p'.codec p'.ends.calls x) := by
  obtain ⟨codec, ends, source, destination, readTotal, writtenTotal, log⟩ := p
  obtain ⟨calls, hroomy⟩ := hroomy
  obtain ⟨more, hcalls, hmore⟩ := DestinationBuffer.flush_explained turns ends hne
  obtain ⟨_, -, -, -, hok, -⟩ := DestinationBuffer.flush_calls turns destination ends
  refine Ensures.intro (fun _ p' hw => ?_) (fun x p' hw => ?_)
  · dsimp only [flush] at hw
    split at hw <;> cases hw
    next heq =>
    rw [heq] at hok
    obtain ⟨-, hdestination, -⟩ := hok rfl
    dsimp only at hdestination
    subst hdestination
    exact ⟨⟨⟨calls, hroomy⟩, hsource, DestinationBuffer.fits_rewind _, hfits.isFull_rewind hne⟩,
      rfl⟩
  · dsimp only [flush] at hw
    split at hw <;> cases hw
    next heq =>
    rw [heq] at hcalls hmore
    dsimp only at hcalls
    rw [hcalls]
    exact hroomy.blamed_of_explains hmore

/-- **Steps until there is room** use up what is pending, or some of it. -/
theorem feedPending_primed [Writer ε] (hstart : Progressing start) : ∀ (turns : Nat)
    (progress : Bool) {p : Pump κ (Observed ε)}, Primed start p →
    Ensures (feedPending turns progress) p
      (fun made p' => Primed start p' ∧ p'.source.capacity = p.source.capacity
        ∧ (p'.source.pending.size = 0 ∨ p'.source.pending.size < p.source.pending.size)
        ∧ (progress = true ∨ p.source.pending.size ≠ 0 → made = true))
      (fun x p' => Blamed start p'.codec p'.ends.calls x) := by
  intro turns
  induction turns with
  | zero => exact fun _ _ h => Ensures.throw h.blamed_outOfTurns
  | succ turns ih =>
      intro progress p h
      refine Ensures.bind (h.feed hstart) ?_
      rintro s p₁ ⟨hroomy, hsource, hsourceFits, hdestination, hfits, hmade, hconsumed, hfilled⟩
      have hpending : p₁.source.pending.size = p.source.pending.size - s.consumed := by
        rw [hsource, SourceBuffer.size_pending_consume]
      have hcapacity : p₁.source.capacity = p.source.capacity := by
        rw [hsource]
        rfl
      show Ensures (if p₁.destination.isFull = true then _ else _) p₁ _ _
      split
      · next hfull =>
        -- a full destination is written out, and then there is room for another step
        have hne : p₁.destination.bytes.size ≠ 0 := by
          rw [hdestination] at hfull ⊢
          exact DestinationBuffer.size_append_ne_zero h.free_pos hfull
        refine Ensures.bind (flush_primed turns hroomy hsourceFits hfits hne) ?_
        rintro _ p₂ ⟨h₂, hsource₂⟩
        refine (ih (progress || s.madeProgress) h₂).mono ?_ (fun _ _ hx => hx)
        rintro made p₃ ⟨h₃, hcapacity₃, hpending₃, hmade₃⟩
        rw [hsource₂] at hcapacity₃ hpending₃
        refine ⟨h₃, hcapacity₃.trans hcapacity, by omega, fun _ => hmade₃ (Or.inl ?_)⟩
        rw [hfilled hfull, Bool.or_true]
      · next hfull =>
        have hroom : p₁.destination.isFull = false := by simpa using hfull
        refine Ensures.pure ⟨⟨hroomy, hsourceFits, hfits, hroom⟩, hcapacity, ?_, ?_⟩
        · by_cases hzero : p.source.pending.size = 0
          · omega
          · have := hconsumed hzero hroom
            omega
        · rintro (hprogress | hinput)
          · rw [hprogress, Bool.true_or]
          · rw [hmade hinput, Bool.or_true]

/-- A read of a source that is not wholly pending. -/
theorem Primed.refill [Reader ε] (turns : Nat) (h : Primed start p)
    (hroom : p.source.pending.size < p.source.capacity) :
    Ensures (refill turns) p
      (fun _ p' => Primed start p' ∧ p'.source.capacity = p.source.capacity)
      (fun x p' => Blamed start p'.codec p'.ends.calls x) := by
  obtain ⟨codec, ends, source, destination, readTotal, writtenTotal, log⟩ := p
  obtain ⟨calls, hroomy⟩ := h.roomy
  obtain ⟨more, hcalls, hrefilled, hmore⟩ := SourceBuffer.refill_of_room turns ends h.source_fits
    hroom
  refine Ensures.intro (fun result p' hw => ?_) (fun x p' hw => ?_)
  · dsimp only [Pump.refill] at hw
    split at hw <;> cases hw
    all_goals
      next heq =>
      rw [heq] at hrefilled
      exact ⟨⟨⟨calls, hroomy⟩, hrefilled.fits, h.destination_fits, h.room⟩, hrefilled.capacity⟩
  · dsimp only [Pump.refill] at hw
    split at hw <;> cases hw
    next heq =>
    rw [heq] at hcalls hmore
    dsimp only at hcalls
    rw [hcalls]
    exact hroomy.blamed_of_explains hmore

theorem feedReader_primed [Reader ε] [Writer ε] (hstart : Progressing start) : ∀ (turns : Nat)
    (fed : Bool) {p : Pump κ (Observed ε)}, Primed start p →
    p.source.pending.size < p.source.capacity →
    Ensures (feedReader turns fed) p (fun _ p' => Primed start p')
      (fun x p' => Blamed start p'.codec p'.ends.calls x) := by
  intro turns
  -- the source is never wholly pending when it is refilled
  induction turns with
  | zero => exact fun _ _ h _ => Ensures.throw h.blamed_outOfTurns
  | succ turns ih =>
      intro fed p h hroom
      refine Ensures.bind (h.refill turns hroom) ?_
      rintro result p₁ ⟨h₁, hcapacity⟩
      cases result with
      | finished => exact Ensures.pure h₁
      | read n =>
          refine Ensures.bind (feedPending_primed hstart turns false h₁) ?_
          rintro _ p₂ ⟨h₂, hcapacity₂, hpending, -⟩
          refine ih true h₂ ?_
          have hle := h₁.source_fits.size_le
          have hsize := SourceBuffer.size_pending p₁.source
          omega

/-- **What remains is always consumed.** -/
theorem feedRemainder_primed [Writer ε] (hstart : Progressing start) : ∀ (turns : Nat)
    (fed : Bool) {p : Pump κ (Observed ε)}, Primed start p →
    Ensures (feedRemainder turns fed) p (fun _ p' => Primed start p')
      (fun x p' => Blamed start p'.codec p'.ends.calls x) := by
  intro turns
  induction turns with
  | zero => exact fun _ _ h => Ensures.throw h.blamed_outOfTurns
  | succ turns ih =>
      intro fed p h
      show Ensures (if p.source.pending.isEmpty = true then _ else _) p _ _
      split
      · exact Ensures.pure h
      · next hempty =>
        refine Ensures.bind (feedPending_primed hstart turns false h) ?_
        rintro made p₁ ⟨h₁, -, -, hmade⟩
        obtain rfl := hmade (Or.inr fun hzero => hempty (beq_iff_eq.mpr hzero))
        exact ih true h₁

/-- **Reading** a source to its end halts for the failure of a call, if at all. -/
theorem readSource_primed [Reader ε] [Writer ε] (hstart : Progressing start) (turns : Nat)
    (h : Primed start p) (hroom : p.source.pending.size < p.source.capacity) :
    Ensures (readSource turns) p (fun _ p' => Primed start p')
      (fun x p' => Blamed start p'.codec p'.ends.calls x) := by
  refine Ensures.bind (feedReader_primed hstart turns false h hroom) fun fed p₁ h₁ => ?_
  refine Ensures.bind (feedRemainder_primed hstart turns fed h₁) fun fed p₂ h₂ => ?_
  cases fed with
  | true => exact Ensures.pure h₂
  | false =>
      exact Ensures.bind (feedPending_primed hstart turns false h₂) fun _ p₃ h₃ =>
        Ensures.pure h₃.1

/-- A step that closes the frame fills the destination, if more is to come. -/
theorem Primed.close (hfilling : Filling start) (h : Primed start p) :
    Ensures close p
      (fun s p' => (∃ calls, Roomy start calls p'.codec) ∧ p'.source.Fits ∧ p'.destination.Fits
        ∧ (s.completion = .pending → p'.destination.bytes.size ≠ 0))
      (fun x p' => Blamed start p'.codec p'.ends.calls x) := by
  obtain ⟨codec, ends, source, destination, readTotal, writtenTotal, log⟩ := p
  obtain ⟨calls, hroomy⟩ := h.roomy
  have hfree := h.free_pos
  refine Ensures.intro (fun s p' hw => ?_) (fun x p' hw => ?_)
  · dsimp only [Pump.close] at hw
    split at hw <;> cases hw
    next hstep =>
    have hle := Codec.produced_le hstep
    refine ⟨⟨_, hroomy.snoc hstep hfree⟩, h.source_fits, h.destination_fits.append hle,
      fun hpending => ?_⟩
    have hfilled := hfilling.room_le hroomy.steps (by decide) hstep hpending
    exact DestinationBuffer.size_append_ne_zero hfree
      (h.destination_fits.isFull_of_free_le hle hfilled)
  · dsimp only [Pump.close] at hw
    split at hw <;> cases hw
    next hstep => exact hroomy.blamed hstep hfree

/-- **Closing the frame** halts for the failure of a call, if at all. -/
theorem finish_primed [Writer ε] (hfilling : Filling start) : ∀ (turns : Nat)
    {p : Pump κ (Observed ε)}, Primed start p →
    Ensures (finish turns) p (fun _ p' => ∃ calls, Roomy start calls p'.codec)
      (fun x p' => Blamed start p'.codec p'.ends.calls x) := by
  intro turns
  induction turns with
  | zero => exact fun h => Ensures.throw h.blamed_outOfTurns
  | succ turns ih =>
      intro p h
      refine Ensures.bind (h.close hfilling) ?_
      rintro s p₁ ⟨hroomy, hsource, hfits, hfilled⟩
      cases hs : s.completion with
      | done => exact Ensures.pure hroomy
      | pending =>
          exact Ensures.bind (flush_primed turns hroomy hsource hfits (hfilled hs))
            fun _ p₂ h₂ => ih h₂.1

/-- **Completing** halts for the failure of a write or a flush, if at all. -/
theorem complete_primed [Writer ε] (turns : Nat) (hroomy : ∃ calls, Roomy start calls p.codec) :
    Ensures (complete turns) p (fun _ p' => ∃ calls, Roomy start calls p'.codec)
      (fun x p' => Blamed start p'.codec p'.ends.calls x) := by
  obtain ⟨codec, ends, source, destination, readTotal, writtenTotal, log⟩ := p
  obtain ⟨calls, hroomy⟩ := hroomy
  refine Ensures.intro (fun _ p' hw => ?_) (fun x p' hw => ?_)
  · dsimp only [complete] at hw
    split at hw
    · cases hw
    · split at hw <;> cases hw
      exact ⟨calls, hroomy⟩
  · dsimp only [complete] at hw
    split at hw
    · cases hw
      next heq =>
      unfold DestinationBuffer.writeRemaining at heq
      split at heq
      · cases heq
      next hne =>
      obtain ⟨more, hcalls, hmore⟩ := DestinationBuffer.flush_explained turns ends hne
      rw [heq] at hcalls hmore
      dsimp only at hcalls ⊢
      rw [hcalls]
      exact hroomy.blamed_of_explains hmore
    · next ends' _ =>
      obtain ⟨result, inner, hinner⟩ : ∃ result inner, Writer.flush ends'.ends = (result, inner) :=
        ⟨_, _, rfl⟩
      rw [Observed.flush_of hinner] at hw
      cases result <;> cases hw
      exact ⟨calls, hroomy, fun _ hx => by
        cases hx
        exact Or.inr ⟨_, List.mem_append_right _ (List.mem_singleton_self _), rfl⟩⟩

/-- A new pump with room in its destination is primed. -/
theorem primed_new (codec : κ) (ends : ε) (log : Log) (sourceLength : Nat)
    {destinationLength : Nat} (hroom : 0 < destinationLength) :
    Primed codec (⟨codec, .new ends, ⟨.empty, 0, sourceLength⟩, ⟨.empty, destinationLength⟩, 0, 0,
      log⟩ : Pump κ (Observed ε)) where
  roomy := ⟨[], roomy_nil codec⟩
  source_fits := ⟨Nat.le_refl 0, Nat.zero_le _⟩
  destination_fits := Nat.zero_le _
  room := beq_eq_false_iff_ne.mpr (Nat.ne_of_lt hroom)

end Pump

/-! ## One-shot operations -/

namespace OneShot

variable {κ : Type} [Codec κ] {start : κ} {memory : Memory} {unit : Nat} {o : OneShot κ}

/-- All that was put out is in a destination that grows by `unit`, and each call of the codec had
room. -/
structure Roomed (start : κ) (unit : Nat) (calls : List StepCall) (o : OneShot κ) : Prop where
  roomy : Roomy start calls o.codec
  output : o.destination.bytes.data.toList = givenBy calls
  fits : o.destination.Fits
  unit_eq : o.destination.unit = unit

/-- There will be room for the next call, too. -/
structure Primed (start : κ) (unit : Nat) (o : OneShot κ) : Prop where
  roomed : ∃ calls, Roomed start unit calls o
  room : o.destination.isFull = false

/-- A halt that is not for want of turns is the failure of a call, if memory is granted for the
output; each call had room. -/
def Blamed (memory : Memory) (unit : Nat) (start codec : κ) (x : Halt Error) : Prop :=
  ∃ calls, Roomy start calls codec
    ∧ (memory.Grows unit (givenBy calls).length → ∀ e, x = .failed e → FromCall calls [] e)

theorem Primed.blamed_outOfTurns (h : Primed start unit o) :
    Blamed memory unit start o.codec .outOfTurns := by
  obtain ⟨calls, hroomed⟩ := h.roomed
  exact ⟨calls, hroomed.roomy, by simp⟩

/-- A step into a destination that has room. -/
theorem Primed.step (h : Primed start unit o) (input : Slice) (directive : Directive) :
    Ensures (step input directive) o
      (fun s o' => ∃ calls, Steps start calls o.codec ∧ 0 < o.destination.free
        ∧ Codec.step o.codec input o.destination.free directive = (.ok s, o'.codec)
        ∧ (∃ calls', Roomed start unit calls' o')
        ∧ (o'.destination.isFull = false ↔ s.produced.size < o.destination.free))
      (fun x o' => Blamed memory unit start o'.codec x) := by
  obtain ⟨codec, destination, log⟩ := o
  obtain ⟨calls, hroomy, houtput, hfits, hunit⟩ := h.roomed
  have hfree : 0 < destination.free := hfits.free_pos_iff.mpr h.room
  refine Ensures.intro (fun s o' hw => ?_) (fun x o' hw => ?_)
  · dsimp only [OneShot.step] at hw
    split at hw <;> cases hw
    next hstep =>
    have hle := Codec.produced_le hstep
    refine ⟨calls, hroomy.steps, hfree, hstep, ⟨_, hroomy.snoc hstep hfree, ?_, hfits.append hle,
      hunit⟩, hfits.isFull_append hle⟩
    rw [GrowableBuffer.toList_append, houtput, givenBy_snoc_ok]
  · dsimp only [OneShot.step] at hw
    split at hw <;> cases hw
    next hstep =>
    exact ⟨_, hroomy.snoc hstep hfree, fun _ _ hx => by cases hx; exact .of_step⟩

/-- A full destination can be grown, if memory is granted for it. -/
theorem grow_primed (h : ∃ calls, Roomed start unit calls o)
    (hfull : o.destination.isFull = true) :
    Ensures (grow memory) o (fun _ o' => Primed start unit o')
      (fun x o' => Blamed memory unit start o'.codec x) := by
  obtain ⟨codec, destination, log⟩ := o
  obtain ⟨calls, hroomy, houtput, hfits, hunit⟩ := h
  refine Ensures.intro (fun _ o' hw => ?_) (fun x o' hw => ?_)
  · dsimp only [grow] at hw
    split at hw <;> cases hw
    next hgrow =>
    obtain ⟨hgrownFits, hbytes, hgrownUnit, hroom⟩ := hfits.grow hgrow
    exact ⟨⟨calls, hroomy, hbytes ▸ houtput, hgrownFits, hgrownUnit.trans hunit⟩, hroom⟩
  · dsimp only [grow] at hw
    split at hw <;> cases hw
    next hgrow =>
    refine ⟨calls, hroomy, fun hmemory => ?_⟩
    -- the output and a unit behind it are granted, so growing has not failed
    have hsize : destination.bytes.size = (givenBy calls).length := congrArg List.length houtput
    obtain ⟨grown, hgrown⟩ := hfits.grow_of_isFull hfull
      (hunit ▸ hmemory _ (Nat.le_of_eq hsize))
    rw [hgrown] at hgrow
    cases hgrow

/-- **Feeding all frames** halts for the failure of a call, if at all. -/
theorem feedFrames_primed (hstart : Progressing start) :
    ∀ (turns : Nat) {remaining : Slice} {o : OneShot κ}, Primed start unit o →
    Ensures (feedFrames memory turns remaining) o
      (fun _ o' => ∃ calls, Roomed start unit calls o')
      (fun x o' => Blamed memory unit start o'.codec x) := by
  intro turns
  induction turns with
  | zero => exact fun h => Ensures.throw h.blamed_outOfTurns
  | succ turns ih =>
      intro remaining o h
      refine Ensures.bind (h.step remaining .feed) ?_
      rintro s o₁ ⟨calls, hsteps, hfree, hstep, hroomed, hroom⟩
      show Ensures (if o₁.destination.isFull = true then _ else _) o₁ _ _
      split
      · next hfull => exact Ensures.bind (grow_primed hroomed hfull) fun _ o₂ h₂ => ih h₂
      · next hfull =>
        have hleaves : o₁.destination.isFull = false := by simpa using hfull
        split
        · exact Ensures.pure hroomed
        · next hremaining =>
          -- a step that left room has made progress, or nothing would remain
          have hinput : remaining.size ≠ 0 := by
            intro hzero
            refine hremaining (beq_iff_eq.mpr ?_)
            rw [Slice.size_drop, hzero, Nat.zero_sub]
          rw [if_pos (hstart.madeProgress hsteps hstep hinput hfree)]
          exact ih ⟨hroomed, hleaves⟩

/-- **Feeding one frame** halts for the failure of a call, if at all. -/
theorem feedAll_primed (hstart : Progressing start) :
    ∀ (turns : Nat) {remaining : Slice} {o : OneShot κ}, Primed start unit o →
    Ensures (feedAll memory turns remaining) o (fun _ o' => Primed start unit o')
      (fun x o' => Blamed memory unit start o'.codec x) := by
  intro turns
  induction turns with
  | zero => exact fun h => Ensures.throw h.blamed_outOfTurns
  | succ turns ih =>
      intro remaining o h
      show Ensures (if remaining.isEmpty = true then _ else _) o _ _
      split
      · exact Ensures.pure h
      · next hremaining =>
        refine Ensures.bind (h.step remaining .feed) ?_
        rintro s o₁ ⟨calls, hsteps, hfree, hstep, hroomed, -⟩
        have hprogress := hstart.madeProgress hsteps hstep
          (fun hzero => hremaining (beq_iff_eq.mpr hzero)) hfree
        show Ensures (if (o₁.destination.isFull || !s.madeProgress) = true then _ else _) o₁ _ _
        rw [hprogress, Bool.not_true, Bool.or_false]
        split
        · next hfull => exact Ensures.bind (grow_primed hroomed hfull) fun _ o₂ h₂ => ih h₂
        · next hfull => exact ih ⟨hroomed, by simpa using hfull⟩

/-- **Closing the frame** halts for the failure of a call, if at all. -/
theorem finish_primed (hfilling : Filling start) :
    ∀ (turns : Nat) {o : OneShot κ}, Primed start unit o →
    Ensures (finish memory turns) o (fun _ o' => ∃ calls, Roomed start unit calls o')
      (fun x o' => Blamed memory unit start o'.codec x) := by
  intro turns
  induction turns with
  | zero => exact fun h => Ensures.throw h.blamed_outOfTurns
  | succ turns ih =>
      intro o h
      refine Ensures.bind (h.step .empty .finish) ?_
      rintro s o₁ ⟨calls, hsteps, hfree, hstep, hroomed, hroom⟩
      cases hs : s.completion with
      | done => exact Ensures.pure hroomed
      | pending =>
          have hle := hfilling.room_le hsteps (by decide) hstep hs
          have hfull : o₁.destination.isFull = true := by
            rw [← Bool.not_eq_false, hroom]
            omega
          exact Ensures.bind (grow_primed hroomed hfull) fun _ o₂ h₂ => ih h₂

/-- A new operation with room in its destination is primed. -/
theorem primed_new (codec : κ) (log : Log) (hunit : 0 < unit) :
    Primed codec unit ⟨codec, ⟨.empty, unit, unit⟩, log⟩ :=
  ⟨⟨[], roomy_nil codec, rfl, GrowableBuffer.fits_new hunit, rfl⟩,
    beq_eq_false_iff_ne.mpr (Nat.ne_of_lt hunit)⟩

end OneShot

end Zstandard
