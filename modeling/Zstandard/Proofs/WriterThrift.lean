import Zstandard.Proofs.Losses
import Zstandard.Proofs.Thrift

/-!
# Decompressing writers do not spin

A call of a decompressing writer repeats its step only behind a full destination, so each of its
steps but the last has put something out (`Underway.pushThrough`). That needs a session that is
drained and has room, which every write leaves, also one that fails (`Tried.poised`).
-/

namespace Zstandard

namespace DecompressingWriter

variable {κ ω : Type}

/-- A writer that may be called: its session is active, drained, and has room. -/
structure Poised (d : DecompressingWriter κ ω) : Prop where
  active : d.session.phase = .active
  drained : d.session.destination.bytes = .empty
  room : 0 < d.session.destination.capacity

variable [Codec κ]

/-- A call that has taken a writer from `d` to `d'`, by these steps and these calls of the writer
behind. -/
structure Brief (d : DecompressingWriter κ (Observed ω)) (made : List StepCall)
    (more : List EndCall) (d' : DecompressingWriter κ (Observed ω)) : Prop where
  /-- The steps lead from one codec to the other. -/
  steps : Steps d.session.codec made d'.session.codec
  /-- The calls are the new ones. -/
  ends : d'.writer.calls = d.writer.calls ++ more
  /-- None of them is a read. -/
  reads : ∀ c ∈ more, c.isRead = false
  /-- No more was accepted than was put out. -/
  accepted : (acceptedBy more).length ≤ (givenBy made).length
  /-- There is at most one step more than bytes were put out. -/
  few : made.length ≤ (givenBy made).length + 1

/-- A call that goes on: there are no more steps than bytes were put out. -/
structure Underway (d : DecompressingWriter κ (Observed ω)) (made : List StepCall)
    (more : List EndCall) (d' : DecompressingWriter κ (Observed ω)) : Prop
    extends Brief d made more d', Poised d' where
  /-- Each step has put something out. -/
  paid : made.length ≤ (givenBy made).length

/-- How much a call has done: its steps, and the traffic of the writer behind. -/
def Spends (d : DecompressingWriter κ (Observed ω)) (n : Nat)
    (d' : DecompressingWriter κ (Observed ω)) : Prop :=
  ∃ made more, Brief d made more d' ∧ n = made.length + traffic more

section Moves

variable {d d₁ d' : DecompressingWriter κ (Observed ω)} {made : List StepCall}
  {more : List EndCall}

theorem Brief.spends (h : Brief d made more d') : Spends d (made.length + traffic more) d' :=
  ⟨made, more, h, rfl⟩

/-- A call begins with nothing done. -/
theorem Poised.underway (h : Poised d) : Underway d [] [] d where
  toPoised := h
  steps := .nil
  ends := (List.append_nil _).symm
  reads := by simp
  accepted := Nat.le_refl 0
  few := Nat.zero_le _
  paid := Nat.le_refl 0

/-- One more step, and some more calls of the writer behind that take of what it has put out. -/
theorem Underway.brief {codec' : κ} {later : List EndCall} (h : Underway d made more d₁)
    (call : StepCall) (d' : DecompressingWriter κ (Observed ω))
    (hstep : Codec.step d₁.session.codec call.input call.room call.directive
      = (call.result, codec')) (hcodec : d'.session.codec = codec')
    (hends : d'.writer.calls = d₁.writer.calls ++ later) (hreads : ∀ c ∈ later, c.isRead = false)
    (haccepted : acceptedBy later <+: call.given) :
    Brief d (made ++ [call]) (more ++ later) d' where
  steps := hcodec ▸ h.steps.snoc hstep
  ends := by rw [hends, h.ends, List.append_assoc]
  reads := List.forall_mem_append.mpr ⟨h.reads, hreads⟩
  accepted := by
    have := h.accepted
    have := haccepted.length_le
    rw [acceptedBy_append, List.length_append, length_givenBy_snoc]
    omega
  few := by
    have := h.paid
    rw [List.length_append, List.length_singleton, length_givenBy_snoc]
    omega

variable [Writer ω]

/-- **A push** is one more step. If it fills the destination, it has put something out. -/
theorem Underway.pushThrough (turns : Nat) (input : Slice) (h : Underway d made more d₁) :
    Ensures (pushThrough turns input) d₁
      (fun p d' => Poised d' ∧ ∃ call later, Brief d (made ++ [call]) (more ++ later) d'
        ∧ (p.full = true → Underway d (made ++ [call]) (more ++ later) d'))
      (fun x d' => Poised d'
        ∧ Ceased (Spends d) (made.length + traffic more + (turns + 1)) x d') := by
  have hpoised := h.toPoised
  obtain ⟨writer, ⟨codec, ⟨bytes, capacity⟩, phase⟩⟩ := d₁
  obtain rfl : bytes = .empty := hpoised.drained
  obtain rfl : phase = .active := hpoised.active
  have hroom : 0 < capacity := hpoised.room
  obtain ⟨result, codec', hstep⟩ : ∃ result codec',
      Codec.step codec input (DestinationBuffer.free ⟨.empty, capacity⟩) .feed = (result, codec') :=
    ⟨_, _, rfl⟩
  cases result with
  | error e =>
      refine Ensures.intro (fun p d' hw => ?_) (fun x d' hw => ?_)
      all_goals
        simp only [DecompressingWriter.pushThrough, bind, EStateM.bind, onSession,
          Session.push_error hstep] at hw
        cases hw
      have hbrief := h.brief ⟨input, _, .feed, .error e⟩
        ⟨writer, ⟨codec', ⟨.empty, capacity⟩, .active⟩⟩ hstep rfl (List.append_nil _).symm
        (List.forall_mem_nil _) List.nil_prefix
      exact ⟨⟨rfl, rfl, hroom⟩, .of_ne hbrief.spends (by simp)⟩
  | ok s =>
      have happ : ByteArray.empty ++ s.produced = s.produced := ByteArray.empty_append
      obtain ⟨later, hends, hreads, haccepted, -⟩ :=
        writeAll_calls turns writer (.ofBytes s.produced)
      have hbusy := writeAll_busy turns writer (.ofBytes s.produced)
      obtain ⟨written, writer', hwrite⟩ : ∃ result o,
          writeAll turns writer (.ofBytes s.produced) = (result, o) := ⟨_, _, rfl⟩
      rw [hwrite] at hends hbusy
      rw [Slice.toList_ofBytes] at haccepted
      have hbrief := h.brief ⟨input, _, .feed, .ok s⟩
        ⟨writer', ⟨codec', ⟨.empty, capacity⟩, .active⟩⟩ hstep rfl hends hreads haccepted
      refine Ensures.intro (fun p d' hw => ?_) (fun x d' hw => ?_)
      all_goals
        simp only [DecompressingWriter.pushThrough, bind, EStateM.bind, onSession,
          Session.push_ok hstep, Session.drain_active, DestinationBuffer.append, happ, hwrite] at hw
        cases written <;> cases hw
      · refine ⟨⟨rfl, rfl, hroom⟩, _, later, hbrief, fun hfull => ⟨hbrief, ⟨rfl, rfl, hroom⟩, ?_⟩⟩
        -- nothing does not fill a destination that has room
        have hsize : s.produced.size = capacity := beq_iff_eq.mp hfull
        have hpaid := h.paid
        rw [List.length_append, List.length_singleton, length_givenBy_snoc_ok]
        omega
      · next y =>
        refine ⟨⟨rfl, rfl, hroom⟩, _, hbrief.spends, fun hx => ?_⟩
        have hcut : y = .outOfTurns := by cases y <;> cases hx; rfl
        have htraffic := hbusy.turns (congrArg Except.error hcut)
        dsimp only at hends
        rw [hends, traffic_append] at htraffic
        rw [List.length_append, List.length_singleton, traffic_append]
        omega

end Moves

/-! ## Calls -/

section Calls

variable [Writer ω] {d d₁ : DecompressingWriter κ (Observed ω)} {made : List StepCall}
  {more : List EndCall}

omit [Writer ω] in
/-- A turn that has made a step has done what was due in it. -/
theorem ceased_of_succ {x : Halt Error} {d' : DecompressingWriter κ (Observed ω)} {call : StepCall}
    {later : List EndCall} {turns : Nat}
    (h : Ceased (Spends d) ((made ++ [call]).length + traffic (more ++ later) + turns) x d') :
    Ceased (Spends d) (made.length + traffic more + (turns + 1)) x d' := by
  have htraffic := traffic_le_append more later
  refine h.mono ?_
  rw [List.length_append, List.length_singleton]
  omega

/-- **Pushing until some of the input is used** leaves the writer poised, whatever comes of it. -/
theorem Underway.writeChunk (input : Slice) : ∀ (turns : Nat) {made : List StepCall}
    {more : List EndCall} {d₁ : DecompressingWriter κ (Observed ω)}, Underway d made more d₁ →
    Ensures (writeChunk input turns) d₁
      (fun _ d' => Poised d' ∧ ∃ made' more', Brief d made' more' d')
      (fun x d' => Poised d' ∧ Ceased (Spends d) (made.length + traffic more + turns) x d') := by
  intro turns
  -- all turns but the last have filled the destination
  induction turns with
  | zero =>
      intro made more d₁ h
      exact Ensures.throw ⟨h.toPoised, .of_le h.toBrief.spends (Nat.le_refl _)⟩
  | succ turns ih =>
      intro made more d₁ h
      refine Ensures.bind (h.pushThrough turns input) ?_
      intro p d₂ hpushed
      obtain ⟨hpoised, call, later, hbrief, hfull⟩ := hpushed
      show Ensures (if p.consumed ≠ 0 ∨ input.isEmpty = true then _ else _) d₂ _ _
      split
      · exact Ensures.pure ⟨hpoised, _, _, hbrief⟩
      · show Ensures (if p.full = true then _ else _) d₂ _ _
        split
        · next hpfull =>
          exact (ih (hfull hpfull)).mono (fun _ _ hq => hq)
            fun _ _ hceased => ⟨hceased.1, ceased_of_succ hceased.2⟩
        · exact Ensures.throw ⟨hpoised, .of_ne hbrief.spends (by simp)⟩

/-- **Settling** leaves the writer poised. -/
theorem Underway.settle : ∀ (turns : Nat) {made : List StepCall} {more : List EndCall}
    {d₁ : DecompressingWriter κ (Observed ω)}, Underway d made more d₁ →
    Ensures (settle turns) d₁ (fun _ d' => ∃ made' more', Brief d made' more' d')
      (fun x d' => Ceased (Spends d) (made.length + traffic more + turns) x d') := by
  intro turns
  induction turns with
  | zero =>
      intro made more d₁ h
      exact Ensures.throw (.of_le h.toBrief.spends (Nat.le_refl _))
  | succ turns ih =>
      intro made more d₁ h
      refine Ensures.bind ((h.pushThrough turns .empty).mono (fun _ _ hq => hq)
        (fun _ _ hx => hx.2)) ?_
      intro p d₂ hpushed
      obtain ⟨-, call, later, hbrief, hfull⟩ := hpushed
      show Ensures (if p.full = true then _ else _) d₂ _ _
      split
      · next hpfull =>
        exact (ih (hfull hpfull)).mono (fun _ _ hq => hq) fun _ _ hceased => ceased_of_succ hceased
      · exact Ensures.pure ⟨_, _, hbrief⟩

/-- What one call of a writer comes to: it has been brief, and if its turns have run out, each has
done something. -/
structure Done {ε α : Type} (turns : Nat) (d : DecompressingWriter κ (Observed ω))
    (made : List StepCall) (more : List EndCall)
    (outcome : Except (Halt ε) α × DecompressingWriter κ (Observed ω)) : Prop
    extends Brief d made more outcome.2 where
  busy : outcome.1 = .error .outOfTurns → turns ≤ made.length + traffic more

/-- **A write** is brief, and leaves the writer poised. -/
theorem Poised.write (h : Poised d) (turns : Nat) (input : Slice) :
    Poised (d.write turns input).2 ∧ ∃ made more, Done turns d made more (d.write turns input) := by
  have hchunk := h.underway.writeChunk input turns
  unfold DecompressingWriter.write
  split
  · next n d' hw =>
    obtain ⟨hpoised, made, more, hbrief⟩ := hchunk.of_ok hw
    exact ⟨hpoised, made, more, hbrief, by simp⟩
  · next x d' hw =>
    obtain ⟨hpoised, _, ⟨made, more, hbrief, rfl⟩, hdue⟩ := hchunk.of_error hw
    refine ⟨hpoised, made, more, hbrief, fun hcut => ?_⟩
    have hx : x = .outOfTurns := by cases x <;> cases hcut; rfl
    have := hdue hx
    rw [traffic_nil] at this
    exact Nat.le_trans (Nat.le_add_left _ _) this

omit [Writer ω] in
/-- A flush of the writer behind belongs to the call in which it is made. -/
theorem Brief.flushed {d' : DecompressingWriter κ (Observed ω)} (h : Brief d made more d₁)
    (hcodec : d'.session.codec = d₁.session.codec) {result : Except IoError Unit}
    (hends : d'.writer.calls = d₁.writer.calls ++ [.flush result]) :
    Brief d made (more ++ [.flush result]) d' where
  steps := hcodec ▸ h.steps
  ends := by rw [hends, h.ends, List.append_assoc]
  reads := List.forall_mem_append.mpr ⟨h.reads, List.forall_mem_singleton.mpr rfl⟩
  accepted := by
    rw [acceptedBy_append]
    simpa [EndCall.accepted] using h.accepted
  few := h.few

/-- **Finishing** is brief. -/
theorem Poised.finish (h : Poised d) (turns : Nat) :
    ∃ made more, Done turns d made more (d.finish turns) := by
  have hwork : Ensures (do
        DecompressingWriter.settle turns
        onSession fun s => (s.endOfInput, s)
        flushWriter
        modify fun d => { d with session := d.session.close } : Work κ (Observed ω) Unit) d
      (fun _ d' => ∃ made more, Brief d made more d')
      (fun x d' => Ceased (Spends d) turns x d') := by
    refine Ensures.bind ((h.underway.settle turns).mono (fun _ _ hq => hq) ?_) ?_
    · intro x d' hceased
      exact hceased.mono (Nat.le_add_left _ _)
    intro _ d₁ hsettled
    obtain ⟨made, more, hbrief⟩ := hsettled
    refine Ensures.bind ((onSession_endOfInput d₁).mono (fun _ _ hq => hq.1) ?_) ?_
    · intro x d' hrefused
      obtain ⟨hd, e, hx, -⟩ := hrefused
      rw [hd, hx]
      exact .of_ne hbrief.spends (by simp)
    intro _ d₂ hd
    subst hd
    refine Ensures.bind ((flushWriter_calls d₂).mono (fun _ _ hq => hq) ?_) ?_
    · intro x d' hfailed
      obtain ⟨e, hx, hsession, hcalls⟩ := hfailed
      rw [hx]
      exact .of_ne (hbrief.flushed (by rw [hsession]) hcalls).spends (by simp)
    · intro _ d₃ hflushed
      exact ⟨made, _, hbrief.flushed (by rw [← hflushed.1]; rfl) hflushed.2⟩
  unfold DecompressingWriter.finish
  dsimp only
  split
  · next hw =>
    obtain ⟨made, more, hbrief⟩ := hwork.of_ok hw
    exact ⟨made, more, hbrief, by simp⟩
  · next x d' hw =>
    obtain ⟨_, ⟨made, more, hbrief, rfl⟩, hdue⟩ := hwork.of_error hw
    exact ⟨made, more, hbrief, fun hcut => hdue (Except.error.inj hcut)⟩

/-- **However a writer was used**, it is poised. -/
theorem Tried.poised {first : DecompressingWriter κ (Observed ω)} (h : Tried first d)
    (hfirst : Poised first) : Poised d := by
  induction h with
  | nil => exact hfirst
  | @write d d' turns input result _ hw _ ih =>
      have hwrite := (ih.write turns input).1
      rwa [hw] at hwrite
  | flush _ ih => exact ⟨ih.active, ih.drained, ih.room⟩

end Calls

omit [Codec κ] in
/-- A new writer with room in its destination is poised. -/
theorem poised_new (codec : κ) (writer : ω) {destinationLength : Nat}
    (hroom : 0 < destinationLength) :
    Poised (⟨.new writer, ⟨codec, ⟨.empty, destinationLength⟩, .active⟩⟩ :
      DecompressingWriter κ (Observed ω)) :=
  ⟨rfl, rfl, hroom⟩

end DecompressingWriter

end Zstandard
