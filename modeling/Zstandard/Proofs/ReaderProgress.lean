import Zstandard.Proofs.CompressingReader
import Zstandard.Proofs.DecompressingReader
import Zstandard.Proofs.Progress

/-!
# Readers around a codec that makes progress

Between two steps of its codec a reader holds an empty destination, and it refills its source only
when nothing is pending: a decompressing reader that has stalled has nothing pending either, if its
codec makes progress. So a refill always has room, no input is left over where the source ends, and
what a read fails with is the failure of a call, or that the input may not end where the read has
found its end.
-/

namespace Zstandard

/-- A refill that has brought nothing leaves the source drained. -/
theorem SourceBuffer.Refilled.drained {b b' : SourceBuffer} {more : List EndCall}
    {result : Except (Halt Error) Refill} (h : Refilled b b' more result)
    (hpending : b.pending.size = 0) (hmore : receivedBy more = []) : b'.pending.size = 0 := by
  rw [← Slice.length_toList, h.pending, hmore, List.append_nil, Slice.length_toList]
  exact hpending

/-! ## Compressing readers -/

namespace CompressingReader

variable {κ ρ : Type} [Codec κ]

/-- Each call of the codec had room, and there will be room for the next. -/
structure Running (start : κ) (c : CompressingReader κ (Observed ρ)) : Prop where
  roomy : ∃ calls, Roomy start calls c.session.codec
  unclosed : c.session.phase ≠ .closed
  drained : c.session.destination.bytes = .empty
  capacity : 0 < c.session.destination.capacity
  source_fits : c.source.Fits
  source_capacity : 0 < c.source.capacity

/-- A reader stays running, and what it halts with is the failure of a call. -/
def Runs (start : κ) (outcome : Except (Halt Error) Unit × CompressingReader κ (Observed ρ)) :
    Prop :=
  Running start outcome.2
    ∧ ∀ x, outcome.1 = .error x → Blamed start outcome.2.session.codec outcome.2.reader.calls x

variable {start : κ} {c : CompressingReader κ (Observed ρ)}

theorem Running.free_pos (h : Running start c) : 0 < c.session.destination.free := by
  rw [DestinationBuffer.free_of_empty h.drained]
  exact h.capacity

/-- A running reader around another codec. -/
theorem Running.with {codec : κ} {phase : Phase} {source : SourceBuffer} {output : Slice}
    {full finishing : Bool} {reader : Observed ρ} (h : Running start c)
    (hroomy : ∃ calls, Roomy start calls codec) (hphase : phase ≠ .closed) (hfits : source.Fits)
    (hcapacity : source.capacity = c.source.capacity) :
    Running start ⟨reader, source, ⟨codec, c.session.destination, phase⟩, output, full,
      finishing⟩ :=
  ⟨hroomy, hphase, h.drained, h.capacity, hfits, hcapacity ▸ h.source_capacity⟩

theorem Running.advance (h : Running start c) (hactive : c.session.phase = .active) :
    Runs start c.advance := by
  obtain ⟨calls, hroomy⟩ := h.roomy
  obtain ⟨result, codec', hstep⟩ : ∃ result codec', Codec.step c.session.codec c.source.pending
      c.session.destination.free .feed = (result, codec') := ⟨_, _, rfl⟩
  have hsnoc := hroomy.snoc hstep h.free_pos
  cases result with
  | error e =>
      obtain ⟨reader, source, ⟨codec, destination, phase⟩, output, full, finishing⟩ := c
      obtain rfl : phase = .active := hactive
      simp only [CompressingReader.advance, Session.push_error hstep]
      refine ⟨h.with ⟨_, hsnoc⟩ (by decide) h.source_fits rfl, fun x hx => ?_⟩
      cases hx
      exact hroomy.blamed hstep h.free_pos
  | ok s =>
      have hfits := h.source_fits.consume (Codec.consumed_le hstep)
      obtain ⟨reader, source, ⟨codec, destination, phase⟩, output, full, finishing⟩ := c
      obtain rfl : phase = .active := hactive
      simp only [CompressingReader.advance, Session.push_ok hstep]
      rw [collect_of_append (by decide) h.drained]
      exact ⟨h.with ⟨_, hsnoc⟩ (by decide) hfits rfl, by simp⟩

/-- A step that closes the frame. -/
theorem Running.close [Reader ρ] (turns : Nat) (h : Running start c)
    (hactive : c.session.phase = .active) (hfinishing : c.finishing = true) :
    Runs start (c.fill turns) := by
  obtain ⟨calls, hroomy⟩ := h.roomy
  obtain ⟨result, codec', hstep⟩ : ∃ result codec', Codec.step c.session.codec .empty
      c.session.destination.free .finish = (result, codec') := ⟨_, _, rfl⟩
  have hsnoc := hroomy.snoc hstep h.free_pos
  obtain ⟨reader, source, ⟨codec, destination, phase⟩, output, full, finishing⟩ := c
  obtain rfl : phase = .active := hactive
  obtain rfl : finishing = true := hfinishing
  cases result with
  | error e =>
      simp only [CompressingReader.fill, if_true, Session.finish_error hstep]
      refine ⟨h.with ⟨_, hsnoc⟩ (by decide) h.source_fits rfl, fun x hx => ?_⟩
      cases hx
      exact hroomy.blamed hstep h.free_pos
  | ok s =>
      cases hs : s.completion with
      | pending =>
          simp only [CompressingReader.fill, if_true, Session.finish_pending hstep hs]
          rw [collect_of_append (by decide) h.drained]
          exact ⟨h.with ⟨_, hsnoc⟩ (by decide) h.source_fits rfl, by simp⟩
      | done =>
          simp only [CompressingReader.fill, if_true, Session.finish_done hstep hs]
          rw [collect_of_append (by decide) h.drained]
          exact ⟨h.with ⟨_, hsnoc⟩ (by decide) h.source_fits rfl, by simp⟩

/-- **A fill** keeps a reader running. -/
theorem Running.fill [Reader ρ] (turns : Nat) (h : Running start c)
    (hactive : c.session.phase = .active) : Runs start (c.fill turns) := by
  cases hfinishing : c.finishing with
  | true => exact h.close turns hactive hfinishing
  | false =>
      cases hneeds : c.needsInput with
      | false =>
          rw [fill_of_not_needsInput hfinishing hneeds]
          exact h.advance hactive
      | true =>
          have hpending : c.source.pending.size = 0 :=
            beq_iff_eq.mp (Bool.and_eq_true_iff.mp hneeds).1
          obtain ⟨more, hcalls, hrefilled, hmore⟩ := SourceBuffer.refill_of_room turns c.reader
            h.source_fits (hpending ▸ h.source_capacity)
          obtain ⟨result, source', reader', hrefill⟩ : ∃ result source' reader',
              c.source.refill turns c.reader = (result, source', reader') := ⟨_, _, _, rfl⟩
          rw [hrefill] at hcalls hrefilled hmore
          dsimp only at hcalls
          have hrefilledRunning : ∀ finishing, Running start
              { c with reader := reader', source := source', finishing := finishing } := fun _ =>
            h.with h.roomy h.unclosed hrefilled.fits hrefilled.capacity
          match result with
          | .ok (.read n) =>
              rw [fill_of_read hfinishing hneeds hrefill]
              exact Running.advance (hrefilledRunning c.finishing) hactive
          | .ok .finished =>
              rw [fill_of_finished hfinishing hneeds hrefill]
              exact ⟨hrefilledRunning true, by simp⟩
          | .error x =>
              rw [fill_of_failure hfinishing hneeds hrefill]
              obtain ⟨calls, hroomy⟩ := h.roomy
              refine ⟨hrefilledRunning c.finishing, fun y hy => ?_⟩
              cases hy
              show Blamed start c.session.codec reader'.calls x
              rw [hcalls]
              exact hroomy.blamed_of_explains hmore

/-- **Preparing output** keeps a reader running. -/
theorem Running.prepare [Reader ρ] : ∀ (turns : Nat) {c : CompressingReader κ (Observed ρ)},
    Running start c → Runs start (c.prepare turns) := by
  intro turns
  -- a fill leaves the reader running, so the next turn starts like this one
  induction turns with
  | zero =>
      intro c h
      obtain ⟨calls, hroomy⟩ := h.roomy
      refine ⟨h, fun x hx => ?_⟩
      cases hx
      exact hroomy.blamed_outOfTurns
  | succ turns ih =>
      intro c h
      cases hready : !c.output.isEmpty || c.session.isFinished with
      | true =>
          rw [prepare_of_ready hready]
          exact ⟨h, by simp⟩
      | false =>
          -- neither finished nor closed
          have hactive : c.session.phase = .active := by
            have hunfinished := (Bool.or_eq_false_iff.mp hready).2
            have hunclosed := h.unclosed
            unfold Session.isFinished at hunfinished
            cases hphase : c.session.phase <;> simp_all
          have hfilled := h.fill turns hactive
          obtain ⟨result, c', hfill⟩ : ∃ result c', c.fill turns = (result, c') := ⟨_, _, rfl⟩
          rw [hfill] at hfilled
          cases result with
          | error x =>
              rw [prepare_of_failure hready hfill]
              exact hfilled
          | ok =>
              rw [prepare_of_fill hready hfill]
              exact ih hfilled.1

/-- **A read** keeps a reader running, and what it fails with is the failure of a call. -/
theorem Running.read [Reader ρ] (turns room : Nat) (h : Running start c) :
    Running start (c.read turns room).2 ∧ ∃ calls,
      Roomy start calls (c.read turns room).2.session.codec
      ∧ ∀ io, (c.read turns room).1 = .error (.failed io) →
        ∃ e, io = e.toIoError ∧ FromCall calls (c.read turns room).2.reader.calls e := by
  obtain ⟨calls, hroomy⟩ := h.roomy
  obtain ⟨hrunning, hblamed⟩ := h.prepare turns
  unfold CompressingReader.read
  split
  · exact ⟨h, calls, hroomy, by simp⟩
  · split
    · next x c' heq =>
      rw [heq] at hrunning hblamed
      obtain ⟨calls', hroomy', hx⟩ := hblamed x rfl
      refine ⟨hrunning, calls', hroomy', fun io hio => ?_⟩
      cases x with
      | outOfTurns => cases hio
      | failed e =>
          cases hio
          exact ⟨e, rfl, hx e rfl⟩
    · next c' heq =>
      rw [heq] at hrunning
      obtain ⟨calls', hroomy'⟩ := hrunning.roomy
      exact ⟨⟨⟨calls', hroomy'⟩, hrunning.unclosed, hrunning.drained, hrunning.capacity,
        hrunning.source_fits, hrunning.source_capacity⟩, calls', hroomy', by simp⟩

/-- However it is read, a reader stays running. -/
theorem Asked.running [Reader ρ] {served : List UInt8}
    {first c : CompressingReader κ (Observed ρ)} (h : Asked first served c)
    (hfirst : Running start first) : Running start c := by
  induction h with
  | nil => exact hfirst
  | read turns room _ ih => exact (ih.read turns room).1

/-- A new reader with room in its buffers is running. -/
theorem running_new (codec : κ) (reader : ρ) {sourceLength destinationLength : Nat}
    (hsource : 0 < sourceLength) (hdestination : 0 < destinationLength) :
    Running codec (⟨.new reader, ⟨.empty, 0, sourceLength⟩,
      ⟨codec, ⟨.empty, destinationLength⟩, .active⟩, .empty, false, false⟩ :
      CompressingReader κ (Observed ρ)) :=
  ⟨⟨[], roomy_nil codec⟩, by simp, rfl, hdestination, ⟨Nat.le_refl 0, Nat.zero_le _⟩, hsource⟩

end CompressingReader

/-! ## Decompressing readers -/

namespace DecompressingReader

variable {κ ρ : Type} [Codec κ]

/-- Each call of the codec had room, and there will be room for the next. -/
structure Stocked (start : κ) (calls : List StepCall) (d : DecompressingReader κ (Observed ρ)) :
    Prop where
  roomy : Roomy start calls d.session.codec
  /-- What was received has been used, or is pending. -/
  source_eq : receivedBy d.reader.calls = takenBy calls ++ d.source.pending.toList
  /-- The session is active until the end has been reached. -/
  active : d.finished = false → d.session.phase = .active
  drained : d.session.destination.bytes = .empty
  capacity : 0 < d.session.destination.capacity
  source_fits : d.source.Fits
  source_capacity : 0 < d.source.capacity

/-- A reader that may go on, and whose flags tell what became of the last call. -/
structure Running (start : κ) (calls : List StepCall) (d : DecompressingReader κ (Observed ρ)) :
    Prop extends Stocked start calls d where
  /-- A call that did nothing was fed nothing, and has not filled the destination. -/
  stalled : d.stalled = true → d.source.pending.size = 0 ∧ d.destinationFull = false
  /-- Where nothing is pending, a call that has not filled the destination was the last to give
  something. -/
  quiescent : d.source.pending.size = 0 → d.destinationFull = false → Quiescent calls

/-- A reader has halted: for the failure of a call, or because the input may not end where the reads
since `before` have found its end. Unless a call of the codec has failed, it is still running. -/
def Stopped (start : κ) (before : List EndCall) (d : DecompressingReader κ (Observed ρ))
    (x : Halt Error) : Prop :=
  ∃ calls, Roomy start calls d.session.codec
    ∧ (∀ e, x = .failed e → FromCall calls d.reader.calls e
      ∨ Refuses calls (receivedBy d.reader.calls) d.session.codec e
        ∧ ReadOut before d.reader.calls)
    ∧ (Harmless StepCall.error? calls → Running start calls d)

/-- A reader stays running, or has halted for a reason. -/
def Runs (start : κ) (before : List EndCall) :
    Except (Halt Error) Unit × DecompressingReader κ (Observed ρ) → Prop
  | (.ok _, d) => (∃ calls, Running start calls d)
    ∧ (d.finished = false → ReadOn before d.reader.calls)
  | (.error x, d) => Stopped start before d x

variable {start : κ} {calls : List StepCall} {before : List EndCall}
  {d : DecompressingReader κ (Observed ρ)}

theorem Runs.since {between : List EndCall}
    {outcome : Except (Halt Error) Unit × DecompressingReader κ (Observed ρ)}
    (h : Runs start between outcome) (hbetween : ReadOn before between) :
    Runs start before outcome := by
  obtain ⟨result, d⟩ := outcome
  cases result with
  | ok => exact ⟨h.1, fun hunfinished => hbetween.trans (h.2 hunfinished)⟩
  | error x =>
      obtain ⟨calls, hroomy, hx, hrunning⟩ := h
      exact ⟨calls, hroomy, fun e he => (hx e he).imp_right fun hrefuses =>
        ⟨hrefuses.1, hbetween.readOut hrefuses.2⟩, hrunning⟩

/-- **A push** of what is pending does something, unless nothing is. -/
theorem Stocked.advance (hstart : Progressing start) (h : Stocked start calls d)
    (hunfinished : d.finished = false) : Runs start d.reader.calls d.advance := by
  have hroomy := h.roomy
  have hfits := DestinationBuffer.fits_of_empty h.drained
  have hfree : 0 < d.session.destination.free := by
    rw [DestinationBuffer.free_of_empty h.drained]
    exact h.capacity
  have hsource := h.source_eq
  obtain ⟨result, codec', hstep⟩ : ∃ result codec', Codec.step d.session.codec d.source.pending
      d.session.destination.free .feed = (result, codec') := ⟨_, _, rfl⟩
  obtain ⟨reader, source, ⟨codec, ⟨bytes, capacity⟩, phase⟩, output, full, stalled, finished⟩ := d
  obtain rfl : phase = .active := h.active hunfinished
  obtain rfl : bytes = .empty := h.drained
  have hsnoc := hroomy.snoc hstep hfree
  dsimp only at hfree hsource
  cases result with
  | error e =>
      simp only [DecompressingReader.advance, Session.push_error hstep]
      refine ⟨_, hsnoc, fun _ hx => ?_, fun hharmless => ?_⟩
      · cases hx
        exact Or.inl .of_step
      · -- the call that has just been made has failed
        have := hharmless _ (List.mem_append_right _ (List.mem_singleton_self _))
        cases this
  | ok s =>
      have happ : ByteArray.empty ++ s.produced = s.produced := ByteArray.empty_append
      have hfull := DestinationBuffer.isFull_append hfits (Codec.produced_le hstep)
      have hsize := source.size_pending_consume s.consumed
      simp only [DestinationBuffer.append, happ] at hfull
      simp only [DecompressingReader.advance, Session.push_ok hstep, Session.drain_active,
        DestinationBuffer.append, DestinationBuffer.rewind, happ]
      refine ⟨⟨_, ⟨⟨hsnoc, ?_, fun _ => rfl, rfl, h.capacity,
        h.source_fits.consume (Codec.consumed_le hstep), h.source_capacity⟩, fun hstalled => ?_,
        fun hpending hroom => ?_⟩⟩, fun _ => .refl _⟩
      · show receivedBy reader.calls = _
        rw [hsource, takenBy_snoc_ok, SourceBuffer.toList_pending_consume, List.append_assoc,
          List.take_append_drop]
      · -- a push that was fed something has done something
        have hmade := fun hinput => hstart.madeProgress hroomy.steps hstep hinput hfree
        simp only [Step.madeProgress, Bool.or_eq_true, bne_iff_ne] at hmade
        simp only [Bool.and_eq_true, beq_iff_eq, ByteArray.isEmpty] at hstalled
        refine ⟨?_, hfull.mpr ?_⟩
        · show (source.consume s.consumed).pending.size = 0
          omega
        · omega
      · -- what was pending has been used, and the destination not filled
        refine quiescent_snoc (hfull.mp hroom) ?_
        rw [Slice.toList_drop, ← SourceBuffer.toList_pending_consume, ← List.length_eq_zero_iff,
          Slice.length_toList]
        exact hpending

/-- **The end of the source** finds nothing pending, and nothing more to come. -/
theorem Running.conclude (h : Running start calls d) (hpending : d.source.pending.size = 0)
    (hquiescent : Quiescent calls) (hout : ReadOut before d.reader.calls)
    (hunfinished : d.finished = false) : Runs start before d.conclude := by
  have hend : d.session.endOfInput = Codec.endOfInput d.session.codec := by
    rw [Session.endOfInput, h.active hunfinished]
  have hempty : d.source.pending.isEmpty = true := beq_iff_eq.mpr hpending
  have hused : takenBy calls = receivedBy d.reader.calls := by
    rw [h.source_eq, d.source.isEmpty_pending_iff.mp hempty, List.append_nil]
  unfold DecompressingReader.conclude
  rw [if_pos hempty, hend]
  cases hrefused : Codec.endOfInput d.session.codec with
  | error e =>
      refine ⟨calls, h.roomy, fun _ hx => Or.inr ⟨?_, hout⟩, fun _ => h⟩
      cases hx
      exact ⟨hused, hquiescent, hrefused⟩
  | ok =>
      exact ⟨⟨calls, ⟨h.roomy, h.source_eq, fun hfinished => (by cases hfinished), h.drained,
        h.capacity, h.source_fits, h.source_capacity⟩, h.stalled, h.quiescent⟩,
        fun hfinished => by cases hfinished⟩

/-- **A fill** reads only when nothing is pending. -/
theorem Running.fill [Reader ρ] (turns : Nat) (hstart : Progressing start)
    (h : Running start calls d) (hunfinished : d.finished = false) :
    Runs start d.reader.calls (d.fill turns) := by
  cases hneeds : d.needsInput with
  | false =>
      rw [fill_of_not_needsInput hneeds]
      exact h.toStocked.advance hstart hunfinished
  | true =>
      obtain ⟨hpending, hroom⟩ : d.source.pending.size = 0 ∧ d.destinationFull = false := by
        rcases Bool.or_eq_true_iff.mp hneeds with hempty | hstalled
        · obtain ⟨hpending, hroom⟩ := Bool.and_eq_true_iff.mp hempty
          exact ⟨beq_iff_eq.mp hpending, by simpa using hroom⟩
        · exact h.stalled hstalled
      obtain ⟨more, hcalls, hrefilled, hmore⟩ := SourceBuffer.refill_of_room turns d.reader
        h.source_fits (hpending ▸ h.source_capacity)
      obtain ⟨result, source', reader', hrefill⟩ : ∃ result source' reader',
          d.source.refill turns d.reader = (result, source', reader') := ⟨_, _, _, rfl⟩
      rw [hrefill] at hcalls hrefilled hmore
      dsimp only at hcalls
      have hstocked : Stocked start calls { d with reader := reader', source := source' } := by
        refine ⟨h.roomy, ?_, h.active, h.drained, h.capacity, hrefilled.fits,
          hrefilled.capacity ▸ h.source_capacity⟩
        show receivedBy reader'.calls = _
        rw [hcalls, receivedBy_append, h.source_eq, hrefilled.pending, List.append_assoc]
      have hquiescent := h.quiescent hpending hroom
      match result with
      | .ok (.read n) =>
          rw [fill_of_read hneeds hrefill]
          exact (hstocked.advance hstart hunfinished).since
            ⟨more, hcalls, (hrefilled.read n rfl).2⟩
      | .ok .finished =>
          rw [fill_of_finished hneeds hrefill]
          obtain ⟨hnone, hexhausted⟩ := hrefilled.finished rfl
          have hdrained := hrefilled.drained hpending hnone
          exact Running.conclude
            ⟨hstocked, fun _ => ⟨hdrained, hroom⟩, fun _ _ => hquiescent⟩ hdrained hquiescent
            ⟨more, hcalls, hexhausted⟩ hunfinished
      | .error x =>
          rw [fill_of_failure hneeds hrefill]
          -- a failed read has brought nothing, so a stall is still one without input
          have hdrained := hrefilled.drained hpending (hrefilled.failed x rfl).1
          refine ⟨calls, h.roomy, fun e hx => Or.inl ?_,
            fun _ => ⟨hstocked, fun _ => ⟨hdrained, hroom⟩, fun _ _ => hquiescent⟩⟩
          subst hx
          obtain ⟨c, hc, he⟩ := hmore.exists_mem
          exact Or.inr ⟨c, hcalls ▸ List.mem_append_right _ hc, he⟩

/-- **Preparing output** keeps a reader running, or halts for a reason. -/
theorem Running.prepare [Reader ρ] (hstart : Progressing start) : ∀ (turns : Nat)
    {calls : List StepCall} {d : DecompressingReader κ (Observed ρ)}, Running start calls d →
    (d.finished = false → ReadOn before d.reader.calls) → Runs start before (d.prepare turns) := by
  intro turns
  induction turns with
  | zero =>
      intro calls d h _
      exact ⟨calls, h.roomy, by simp, fun _ => h⟩
  | succ turns ih =>
      intro calls d h hon
      cases hready : !d.output.isEmpty || d.finished with
      | true =>
          rw [prepare_of_ready hready]
          exact ⟨⟨calls, h⟩, hon⟩
      | false =>
          have hunfinished := (Bool.or_eq_false_iff.mp hready).2
          have hfilled := (h.fill turns hstart hunfinished).since (hon hunfinished)
          obtain ⟨result, d', hfill⟩ : ∃ result d', d.fill turns = (result, d') := ⟨_, _, rfl⟩
          rw [hfill] at hfilled
          cases result with
          | error x =>
              rw [prepare_of_failure hready hfill]
              exact hfilled
          | ok =>
              rw [prepare_of_fill hready hfill]
              obtain ⟨⟨calls', h'⟩, hon'⟩ := hfilled
              exact ih h' hon'

/-- **A read** fails for the failure of a call, or because the input may not end where the read has
found its end. -/
theorem Running.read [Reader ρ] (turns room : Nat) (hstart : Progressing start)
    (h : Running start calls d) : ∃ calls', Roomy start calls' (d.read turns room).2.session.codec
      ∧ (∀ io, (d.read turns room).1 = .error (.failed io) → ∃ e, io = e.toIoError
        ∧ (FromCall calls' (d.read turns room).2.reader.calls e
          ∨ Refuses calls' (receivedBy (d.read turns room).2.reader.calls)
              (d.read turns room).2.session.codec e
            ∧ ReadOut d.reader.calls (d.read turns room).2.reader.calls))
      ∧ (Harmless StepCall.error? calls' → Running start calls' (d.read turns room).2) := by
  have hprepared := h.prepare hstart turns fun _ => .refl d.reader.calls
  unfold DecompressingReader.read
  split
  · exact ⟨calls, h.roomy, by simp, fun _ => h⟩
  · split
    · next x d' heq =>
      rw [heq] at hprepared
      obtain ⟨calls', hroomy, hx, hrunning⟩ := hprepared
      refine ⟨calls', hroomy, fun io hio => ?_, hrunning⟩
      cases x with
      | outOfTurns => cases hio
      | failed e =>
          cases hio
          exact ⟨e, rfl, hx e rfl⟩
    · next d' heq =>
      rw [heq] at hprepared
      obtain ⟨⟨calls', hrunning⟩, -⟩ := hprepared
      exact ⟨calls', hrunning.roomy, by simp, fun _ => ⟨⟨hrunning.roomy, hrunning.source_eq,
        hrunning.active, hrunning.drained, hrunning.capacity, hrunning.source_fits,
        hrunning.source_capacity⟩, hrunning.stalled, hrunning.quiescent⟩⟩

/-- A new reader with room in its buffers is running. -/
theorem running_new (codec : κ) (reader : ρ) {sourceLength destinationLength : Nat}
    (hsource : 0 < sourceLength) (hdestination : 0 < destinationLength) :
    Running codec [] (⟨.new reader, ⟨.empty, 0, sourceLength⟩,
      ⟨codec, ⟨.empty, destinationLength⟩, .active⟩, .empty, false, false, false⟩ :
      DecompressingReader κ (Observed ρ)) :=
  ⟨⟨roomy_nil codec, rfl, fun _ => rfl, rfl, hdestination, ⟨Nat.le_refl 0, Nat.zero_le _⟩,
    hsource⟩, by simp, fun _ _ _ hlast => by cases hlast⟩

end DecompressingReader

end Zstandard
