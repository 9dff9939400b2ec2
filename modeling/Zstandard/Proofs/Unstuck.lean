import Mathlib
import Zstandard.Proofs.Compression
import Zstandard.Proofs.Decompression
import Zstandard.Proofs.ReaderProgress
import Zstandard.Proofs.RoundTrip
import Zstandard.Proofs.WriterProgress

/-!
# No way to compress or decompress gets stuck

Streams, one-shot operations, readers and writers all give up where they cannot get on: a source
buffer without room for a read, a destination without room for a step, a step that does nothing, a
remainder that is not consumed. With a codec that makes progress none of that happens, whatever the
lengths of the buffers: a failure is that of a call of the codec, the reader or the writer
(`Unstuck`), or all of the input has been used and it may not end where it does (`Refuses`). The
headline is `drivers_never_get_stuck`.
-/

namespace Zstandard

/-! ## What is said of a run -/

/-- Each call of the codec had room, and a failure is that of a call, or one with which the end of
the input is refused. -/
structure Unstuck {ε α : Type} (wrap : Error → ε) (calls : List StepCall) (ends : List EndCall)
    (refused : Error → Prop) (result : Except (Halt ε) α) : Prop where
  room : ∀ c ∈ calls, 0 < c.room
  failure : ∀ x, result = .error (.failed x) → ∃ e, x = wrap e ∧ (FromCall calls ends e ∨ refused e)

/-- An operation that was not stuck either, and repeated a call only behind a full destination that
had been written out. -/
structure Unforced {ε α : Type} (wrap : Error → ε) (capacity : Nat) (before after : List StepCall)
    (ends : List EndCall) (refused : Error → Prop) (result : Except (Halt ε) α) : Prop
    extends Unstuck wrap after ends refused result where
  /-- The calls it made are one and its repetitions. -/
  repeats : ∃ calls, after = before ++ calls ∧ Repeats capacity ends before calls

/-- What came of a run: its codec could not be made, or the run was not stuck. -/
inductive Went {κ κ' α : Type} (made : Except Error κ) (record : κ' → List StepCall)
    (refused : κ' → Error → Prop) (ends : List EndCall) (result : Except (Halt Error) α) :
    Option κ' → Prop where
  | unmade {e : Error} : made = .error e → result = .error (.failed e) →
      Went made record refused ends result none
  | run {codec : κ'} : Unstuck id (record codec) ends (refused codec) result →
      Went made record refused ends result (some codec)

/-- What came of creating something: its codec could not be made, or `P` holds of it. -/
inductive Created {κ σ : Type} (made : Except Error κ) (P : σ → Prop) : Except Error σ → Prop where
  | unmade {e : Error} : made = .error e → Created made P (.error e)
  | new {s : σ} : P s → Created made P (.ok s)

/-- What a one-shot operation asked memory for was granted: at each time room for the output so far
and a unit more. -/
def Conversion.Granted {κ' : Type} (c : Conversion κ') (record : κ' → List StepCall)
    (memory : Memory) (unit : Nat) : Prop :=
  ∀ codec ∈ c.codec, memory.Grows unit (givenBy (record codec)).length

/-- The record is that of the calls since `start`. -/
def Tells {κ : Type} [Codec κ] (record : κ → List StepCall) (start : κ) : Prop :=
  ∀ calls codec, Steps start calls codec → record codec = calls

section Tells

variable {κ ο ε α : Type} [Codec κ] {make : ο → Except Error κ} {o : ο}

omit [Codec κ] in
theorem tracing_of_ok {codec : κ} (h : make o = .ok codec) :
    tracing make o = .ok ⟨codec, #[]⟩ := by
  rw [tracing, h]
  rfl

omit [Codec κ] in
theorem tracing_of_error {e : Error} (h : make o = .error e) : tracing make o = .error e := by
  rw [tracing, h]
  rfl

omit [Codec κ] in
theorem recording_of_ok {codec : κ} (h : make o = .ok codec) :
    recording make o = .ok { codec := ⟨codec, #[]⟩ } := by
  rw [recording, h]
  rfl

omit [Codec κ] in
theorem recording_of_error {e : Error} (h : make o = .error e) : recording make o = .error e := by
  rw [recording, h]
  rfl

theorem tells_traced {codec : κ} :
    Tells Recorded.record (⟨codec, #[]⟩ : Recorded κ) := by
  intro calls codec' hsteps
  unfold Recorded.record
  rw [hsteps.recorded]
  rfl

theorem tells_framed {codec : κ} :
    Tells Framed.record ({ codec := ⟨codec, #[]⟩ } : Framed (Recorded κ)) := by
  intro calls codec' hsteps
  unfold Framed.record
  rw [hsteps.unframed.recorded]
  rfl

variable {record : κ → List StepCall} {start codec : κ} {capacity room : Nat}
  {before calls : List StepCall} {ends ends' : List EndCall} {refused : Error → Prop}
  {wrap : Error → ε}

theorem Tells.unstuck {result : Except (Halt ε) α} (h : Tells record start)
    (hroomy : Roomy start calls codec)
    (hresult : ∀ x, result = .error (.failed x) →
      ∃ e, x = wrap e ∧ (FromCall calls ends e ∨ refused e)) :
    Unstuck wrap (record codec) ends refused result := by
  rw [h _ _ hroomy.steps]
  exact ⟨hroomy.room, hresult⟩

theorem Tells.unstuck_of_ok {a : α} (h : Tells record start) (hroomy : Roomy start calls codec) :
    Unstuck wrap (record codec) ends refused (.ok a) :=
  h.unstuck hroomy (by simp)

/-- A halt for which a call is to blame. -/
theorem Tells.unstuck_of_blamed {x : Halt Error} (h : Tells record start)
    (hblamed : Blamed start codec ends x) :
    Unstuck id (record codec) ends refused (.error x : Except (Halt Error) α) := by
  obtain ⟨calls, hroomy, hx⟩ := hblamed
  exact h.unstuck hroomy fun e he => ⟨e, rfl, Or.inl (hx e (by cases he; rfl))⟩

/-- A halt because the input may not end where it does. -/
theorem Tells.unstuck_of_refused {e : Error} (h : Tells record start)
    (hroomy : Roomy start calls codec) (he : refused e) :
    Unstuck id (record codec) ends refused (.error (.failed e) : Except (Halt Error) α) :=
  h.unstuck hroomy fun _ hx => ⟨e, by cases hx; rfl, Or.inr he⟩

/-- A halt of a one-shot operation for which a call is to blame, since memory was granted. -/
theorem Tells.unstuck_of_oneShot {x : Halt Error} {memory : Memory} {unit : Nat}
    (h : Tells record start) (hblamed : OneShot.Blamed memory unit start codec x)
    (hmemory : memory.Grows unit (givenBy (record codec)).length) :
    Unstuck id (record codec) [] refused (.error x : Except (Halt Error) α) := by
  obtain ⟨calls, hroomy, hx⟩ := hblamed
  rw [h _ _ hroomy.steps] at hmemory
  exact h.unstuck hroomy fun e he => ⟨e, rfl, Or.inl (hx hmemory e (by cases he; rfl))⟩

theorem Tells.unforced {result : Except (Halt ε) α} (h : Tells record start)
    (hrounds : Rounds start capacity room before calls codec ends ends')
    (hresult : ∀ x, result = .error (.failed x) →
      ∃ e, x = wrap e ∧ (FromCall (before ++ calls) ends' e ∨ refused e)) :
    Unforced wrap capacity before (record codec) ends' refused result :=
  ⟨h.unstuck hrounds.roomy hresult, calls, h _ _ hrounds.roomy.steps, hrounds.repeats⟩

theorem Halt.map_id {x : Halt ε} : x.map id = x := by cases x <;> rfl

/-- Work that makes rounds of calls is not stuck. -/
theorem GoesRound.unforced {σ : Type} {session : σ → Session κ} {target : σ → List EndCall}
    {Q : List StepCall → σ → Prop} {work : EStateM (Halt Error) σ α} {s : σ}
    (h : GoesRound session target start capacity room before ends Q work s)
    (htells : Tells record start) (wrap : Error → ε) (refused : Error → Prop) :
    Ensures work s
      (fun a s' => Unforced wrap capacity before (record (session s').codec) (target s') refused
        (.ok a : Except (Halt ε) α))
      (fun x s' => Unforced wrap capacity before (record (session s').codec) (target s') refused
        (.error (x.map wrap) : Except (Halt ε) α)) := by
  refine Ensures.mono h ?_ ?_
  · rintro a s' ⟨calls, hrounds, -⟩
    exact htells.unforced hrounds (by simp)
  · rintro x s' ⟨calls, hrounds, hx⟩
    refine htells.unforced hrounds fun y hy => ?_
    cases x with
    | outOfTurns => cases hy
    | failed e =>
        cases hy
        exact ⟨e, rfl, Or.inl (hx e rfl)⟩

end Tells

/-! ## Streams and one-shot operations -/

section Went

variable {κ κ' : Type} {made : Except Error κ} {record : κ' → List StepCall}
  {refused : κ' → Error → Prop}

/-- What work on a pump ensures comes of a run. -/
theorem Stream.went {ε : Type} (refusedAt : List EndCall → κ' → Error → Prop) {memory : Memory}
    {direction : Direction} {sourceLength destinationLength : Nat}
    {work : Pump.Work κ' (Observed ε) Unit} {codec : κ'} {ends : Observed ε} {log : Log}
    (hmemory : memory.Serves sourceLength destinationLength)
    (hwork : ∀ log', Ensures work
      ⟨codec, ends, ⟨.empty, 0, sourceLength⟩, ⟨.empty, destinationLength⟩, 0, 0, log'⟩
      (fun _ p => Unstuck id (record p.codec) p.ends.calls (refusedAt p.ends.calls p.codec)
        (.ok () : Except (Halt Error) Unit))
      (fun x p => Unstuck id (record p.codec) p.ends.calls (refusedAt p.ends.calls p.codec)
        (.error x : Except (Halt Error) Unit))) :
    let t := run memory direction sourceLength destinationLength work codec ends log
    Went made record (refusedAt t.ends.calls) t.ends.calls t.result t.codec := by
  have hnew := hwork (log.push (.streamOpened direction sourceLength destinationLength))
  dsimp only
  rw [run_opens hmemory]
  split
  · next hw => exact .run (hnew.of_ok hw)
  · next hw => exact .run (hnew.of_error hw)

/-- What work with a new destination ensures comes of a run. -/
theorem OneShot.went {memory : Memory} {direction : Direction} {unit sourceSize : Nat}
    {work : Work κ' Unit} {codec : κ'} {log : Log}
    (hwork : Ensures work ⟨codec, ⟨.empty, unit, unit⟩, log⟩
      (fun _ o => Unstuck id (record o.codec) [] (refused o.codec)
        (.ok o.destination.bytes : Except (Halt Error) ByteArray))
      (fun x o => memory.Grows unit (givenBy (record o.codec)).length →
        Unstuck id (record o.codec) [] (refused o.codec)
          (.error x : Except (Halt Error) ByteArray))) {c : Conversion κ'}
    (hc : run memory direction unit sourceSize work codec log = c)
    (hmemory : c.Granted record memory unit) : Went made record refused [] c.result c.codec := by
  have hunit : memory.grants unit = true := by
    by_contra hrefused
    have hcreate : GrowableBuffer.create memory unit = .error .allocateFailed := if_neg hrefused
    simp only [run, hcreate] at hc
    subst hc
    exact hrefused (hmemory _ rfl).grants_unit
  rw [run_opens hunit] at hc
  cases hw : work ⟨codec, ⟨.empty, unit, unit⟩, log⟩ with
  | ok _ o =>
      rw [hw] at hc
      subst hc
      exact .run (hwork.of_ok hw)
  | error x o =>
      rw [hw] at hc
      subst hc
      exact .run (hwork.of_error hw (hmemory _ rfl))

end Went

/-! ## Writers -/

namespace CompressingWriter

variable {κ ω ε α : Type} [Codec κ] [Writer ω] {start : κ} {capacity : Nat}

omit [Codec κ] [Writer ω] in
/-- An operation has taken a writer to where it is now. -/
abbrev Unforced (wrap : Error → ε) (capacity : Nat)
    (c : CompressingWriter (Recorded κ) (Observed ω))
    (outcome : Except (Halt ε) α × CompressingWriter (Recorded κ) (Observed ω)) : Prop :=
  Zstandard.Unforced wrap capacity c.session.codec.record outcome.2.session.codec.record
    outcome.2.writer.calls (fun _ => False) outcome.1

/-- An attempt to end the frame. -/
def attempt (turns : Nat) (c : CompressingWriter κ ω) :
    Except (Halt Error) Unit × CompressingWriter κ ω :=
  match finishFrame turns c with
  | .ok () c => (.ok (), c)
  | .error x c => (.error x, c)

/-- Whatever it is asked for next, a writer is not stuck. To finish it is an attempt to end the
frame, and to let go of it is one too. -/
structure Unhindered (capacity : Nat) (c : CompressingWriter (Recorded κ) (Observed ω)) : Prop where
  write : ∀ turns input, c.Unforced Error.toIoError capacity (c.write turns input)
  flush : ∀ turns, c.Unforced Error.toIoError capacity (c.flush turns)
  attempt : ∀ turns, c.Unforced id capacity (c.attempt turns)
  finish : ∀ turns, (c.finish turns).1 = (c.attempt turns).1
  release : ∀ turns, c.release turns = (c.attempt turns).2

/-- A writer that may go on. -/
theorem Written.posts {done : List UInt8} {first c : CompressingWriter κ (Observed ω)}
    (h : Written first done c) (hprogress : Progressing start) (hfilling : Filling start)
    (hfirst : Posts start capacity [] first) : ∃ calls, Posts start capacity calls c := by
  induction h with
  | nil => exact ⟨[], hfirst⟩
  | @write done c c' turns n input _ hw ih =>
      obtain ⟨calls, hc⟩ := ih
      unfold CompressingWriter.write outcome at hw
      split at hw <;> cases hw
      next hwork =>
      obtain ⟨more, -, hc'⟩ := (writeChunk_goes hprogress input turns hc).of_ok hwork
      exact ⟨_, hc'⟩
  | @flush done c c' turns _ hw ih =>
      obtain ⟨calls, hc⟩ := ih
      unfold CompressingWriter.flush outcome at hw
      split at hw <;> cases hw
      next hwork =>
      obtain ⟨more, -, hc'⟩ := (flushFrame_goes hfilling turns hc).of_ok hwork
      exact ⟨_, hc'⟩

/-- **With a codec that makes progress** no operation is stuck. -/
theorem Posts.unhindered {start : Recorded κ} {calls : List StepCall}
    {c : CompressingWriter (Recorded κ) (Observed ω)} (h : Posts start capacity calls c)
    (htells : Tells Recorded.record start) (hprogress : Progressing start)
    (hfilling : Filling start) : Unhindered capacity c := by
  have hrecord : c.session.codec.record = calls := htells _ _ h.roomy.steps
  -- the frame has not been ended, so letting go of the writer is an attempt to end it
  have hunfinished : c.session.isFinished = false := by
    rw [Session.isFinished, h.active]
    rfl
  constructor
  case write =>
    intro turns input
    have hwork := (writeChunk_goes hprogress input turns h).unforced htells Error.toIoError
      fun _ => False
    unfold CompressingWriter.Unforced CompressingWriter.write outcome
    rw [hrecord]
    split
    · next hw => exact hwork.of_ok hw
    · next hw => exact hwork.of_error hw
  case flush =>
    intro turns
    have hwork := (flushFrame_goes hfilling turns h).unforced htells Error.toIoError fun _ => False
    unfold CompressingWriter.Unforced CompressingWriter.flush outcome
    rw [hrecord]
    split
    · next hw => exact hwork.of_ok hw
    · next hw => exact hwork.of_error hw
  case attempt =>
    intro turns
    have hwork := (finishFrame_goes hfilling turns h).unforced htells id fun _ => False
    unfold CompressingWriter.Unforced CompressingWriter.attempt
    rw [hrecord]
    split
    · next hw => exact hwork.of_ok hw
    · next hw =>
      have herror := hwork.of_error hw
      rwa [Halt.map_id] at herror
  case finish =>
    intro turns
    unfold CompressingWriter.finish CompressingWriter.attempt
    cases finishFrame turns c <;> rfl
  case release =>
    intro turns
    unfold release CompressingWriter.attempt
    rw [hunfinished]
    cases finishFrame turns c <;> rfl

end CompressingWriter

namespace DecompressingWriter

variable {κ ω ε α : Type} [Codec κ] [Writer ω] {start : κ} {capacity : Nat}

omit [Codec κ] [Writer ω] in
/-- An operation has taken a writer to where it is now. -/
abbrev Unforced (wrap : Error → ε) (capacity : Nat)
    (d : DecompressingWriter (Framed (Recorded κ)) (Observed ω)) (refused : Error → Prop)
    (outcome : Except (Halt ε) α × DecompressingWriter (Framed (Recorded κ)) (Observed ω)) :
    Prop :=
  Zstandard.Unforced wrap capacity d.session.codec.record outcome.2.session.codec.record
    outcome.2.writer.calls refused outcome.1

/-- Whatever it is asked for next, a writer to which `done` was written is not stuck. Only to finish
it may be refused, because `done` may not end where it does. -/
structure Unhindered (capacity : Nat) (done : List UInt8)
    (d : DecompressingWriter (Framed (Recorded κ)) (Observed ω)) : Prop where
  write : ∀ turns input,
    d.Unforced Error.toIoError capacity (fun _ => False) (d.write turns input)
  flush : d.Unforced Error.toIoError capacity (fun _ => False)
    (d.flush.1.mapError .failed, d.flush.2)
  finish : ∀ turns, d.Unforced id capacity
    (Refuses (d.finish turns).2.session.codec.record done (d.finish turns).2.session.codec)
    (d.finish turns)

/-- A flush calls the writer behind, and no codec. -/
theorem Posts.flushed {calls : List StepCall} {d : DecompressingWriter κ (Observed ω)}
    (h : Posts start capacity calls d) :
    Posts start capacity calls d.flush.2
      ∧ ∃ result, d.flush.1 = result
        ∧ d.flush.2.writer.calls = d.writer.calls ++ [.flush result] := by
  obtain ⟨⟨ends, endCalls⟩, session⟩ := d
  obtain ⟨result, ends', hw⟩ : ∃ result ends', Writer.flush ends = (result, ends') := ⟨_, _, rfl⟩
  have hflush := Observed.flush_of (o := ⟨ends, endCalls⟩) hw
  simp only [DecompressingWriter.flush, hflush]
  refine ⟨{ h with output := ?_ }, result, rfl, rfl⟩
  simpa [EndCall.accepted] using h.output

/-- A writer that may go on. -/
theorem Written.posts {done : List UInt8} {first d : DecompressingWriter κ (Observed ω)}
    (h : Written first done d) (hprogress : Progressing start)
    (hfirst : Posts start capacity [] first) : ∃ calls, Posts start capacity calls d := by
  induction h with
  | nil => exact ⟨[], hfirst⟩
  | @write done d d' turns n input _ hw ih =>
      obtain ⟨calls, hd⟩ := ih
      unfold DecompressingWriter.write at hw
      split at hw <;> cases hw
      next hwork =>
      obtain ⟨more, -, hd'⟩ := (writeChunk_goes hprogress input turns hd).of_ok hwork
      exact ⟨_, hd'⟩
  | @flush done d d' _ hw ih =>
      obtain ⟨calls, hd⟩ := ih
      have hd' := (Posts.flushed hd).1
      rw [hw] at hd'
      exact ⟨calls, hd'⟩

/-- **With a codec that makes progress** no operation is stuck. -/
theorem Posts.unhindered {start : Framed (Recorded κ)} {calls : List StepCall}
    {d : DecompressingWriter (Framed (Recorded κ)) (Observed ω)} (h : Posts start capacity calls d)
    (hrelayed : Relayed start calls d) (htells : Tells Framed.record start)
    (hprogress : Progressing start) : Unhindered capacity (takenBy calls) d := by
  have hrecord : d.session.codec.record = calls := htells _ _ h.roomy.steps
  constructor
  case write =>
    intro turns input
    have hwork := (writeChunk_goes hprogress input turns h).unforced htells Error.toIoError
      fun _ => False
    unfold DecompressingWriter.Unforced DecompressingWriter.write
    rw [hrecord]
    split
    · next hw => exact hwork.of_ok hw
    · next hw => exact hwork.of_error hw
  case flush =>
    -- the output is with the writer behind already, and the codec is not called
    obtain ⟨h', result, hresult, hcalls⟩ := Posts.flushed h
    unfold DecompressingWriter.Unforced
    rw [hrecord]
    have hrounds : Rounds start capacity capacity calls [] d.flush.2.session.codec
        d.flush.2.writer.calls d.flush.2.writer.calls := h'.roomy.no_rounds _
    refine htells.unforced hrounds fun io hio => ?_
    rw [hresult] at hio
    cases result with
    | ok => cases hio
    | error e =>
        cases hio
        refine ⟨.writeIo io, rfl, Or.inl (Or.inr ⟨.flush (.error io), ?_, rfl⟩)⟩
        rw [hcalls]
        exact List.mem_append_right _ (List.mem_singleton_self _)
  case finish =>
    intro turns
    obtain ⟨more, hrounds, hx⟩ := finish_goes h hrelayed (Prod.eta (d.finish turns)).symm
    unfold DecompressingWriter.Unforced
    rw [hrecord]
    refine htells.unforced hrounds fun e he => ⟨e, rfl, (hx e he).imp_right ?_⟩
    rintro ⟨calls', hsteps, hrefuses⟩
    rwa [htells _ _ hsteps]

end DecompressingWriter

/-! ## Readers -/

namespace DecompressingReader

variable {κ ρ : Type} [Codec κ] [Reader ρ]

/-- A read is not stuck. It may be refused because what was received may not end where this read has
found its end. -/
abbrev Unstuck (d : DecompressingReader (Framed (Recorded κ)) (Observed ρ)) (turns room : Nat) :
    Prop :=
  let outcome := d.read turns room
  let codec := outcome.2.session.codec
  Zstandard.Unstuck Error.toIoError codec.record outcome.2.reader.calls
    (fun e => Refuses codec.record (receivedBy outcome.2.reader.calls) codec e
      ∧ ReadOut d.reader.calls outcome.2.reader.calls)
    outcome.1

/-- Some reads lead from `first` to a state. No call of the codec has failed. -/
inductive Resumed (first : DecompressingReader (Framed (Recorded κ)) ρ) :
    DecompressingReader (Framed (Recorded κ)) ρ → Prop where
  | nil : Resumed first first
  | read {d : DecompressingReader (Framed (Recorded κ)) ρ} (turns room : Nat) : Resumed first d →
      Harmless StepCall.error? (d.read turns room).2.session.codec.record →
      Resumed first (d.read turns room).2

theorem Resumed.running {start : Framed (Recorded κ)}
    {first d : DecompressingReader (Framed (Recorded κ)) (Observed ρ)} (h : Resumed first d)
    (htells : Tells Framed.record start) (hprogress : Progressing start)
    (hfirst : Running start [] first) : ∃ calls, Running start calls d := by
  induction h with
  | nil => exact ⟨[], hfirst⟩
  | read turns room _ hharmless ih =>
      -- a reader may only be stopped for good by a call of its codec
      obtain ⟨calls, hrunning⟩ := ih
      obtain ⟨calls', hroomy, -, hrunning'⟩ := hrunning.read turns room hprogress
      rw [htells _ _ hroomy.steps] at hharmless
      exact ⟨calls', hrunning' hharmless⟩

end DecompressingReader

/-! ## Compression -/

section Compress

variable {κ : Type} [Codec κ] {memory : Memory} {make : CompressorOptions → Except Error κ}
  {o : CompressorOptions} (ho : o.validate = .ok ())
  (hmake : ∀ o' start, make o' = .ok start → Progressing start ∧ Filling start)

include ho hmake

theorem Stream.compress_went {ε : Type} [Reader ε] [Writer ε]
    (hmemory : memory.Serves o.sourceLength o.destinationLength) (turns : Nat) (ends : ε)
    (log : Log) :
    let t := compress memory (tracing make) turns o (Observed.new ends) log
    Went (make o) Recorded.record (fun _ _ => False) t.ends.calls t.result t.codec := by
  obtain ⟨log', hsetUp⟩ := CompressorOptions.setUp_opens (tracing make) ho rfl log
  cases hmade : make o with
  | error e =>
      rw [tracing_of_error hmade] at hsetUp
      simp only [compress, ho, hsetUp]
      exact .unmade rfl rfl
  | ok codec =>
      rw [tracing_of_ok hmade] at hsetUp
      obtain ⟨hprogress, hfilling⟩ := hmake o codec hmade
      simp only [compress, ho, hsetUp]
      refine Stream.went (fun _ _ _ => False) hmemory fun log'' => ?_
      have hnew := Pump.primed_new (⟨codec, #[]⟩ : Recorded κ) ends log'' o.sourceLength
        o.destinationLength_pos
      -- what is read leaves room to close the frame, and that leaves what there is to be written
      have hwork : Ensures (do
            Pump.readSource turns
            Pump.finish turns
            Pump.complete turns : Pump.Work (Recorded κ) (Observed ε) Unit) _
          (fun _ p => ∃ calls, Roomy _ calls p.codec)
          (fun x p => Blamed _ p.codec p.ends.calls x) :=
        Ensures.bind (Pump.readSource_primed (hprogress.recorded #[]) turns hnew o.sourceLength_pos)
          fun _ p₁ h₁ => Ensures.bind (Pump.finish_primed (hfilling.recorded #[]) turns h₁)
            fun _ p₂ h₂ => Pump.complete_primed turns h₂
      refine hwork.mono ?_ fun x p hx => tells_traced.unstuck_of_blamed hx
      intro _ p hroomy
      obtain ⟨calls, hroomy⟩ := hroomy
      exact tells_traced.unstuck_of_ok hroomy

theorem OneShot.compress_went (turns : Nat) (source : ByteArray) (log : Log)
    {c : Conversion (Recorded κ)} (hc : compress memory (tracing make) turns o source log = c)
    (hmemory : c.Granted Recorded.record memory o.destinationLength) :
    Went (make (o.orPledge source.size)) Recorded.record (fun _ _ => False) [] c.result
      c.codec := by
  obtain ⟨log', hsetUp⟩ := CompressorOptions.setUp_opens (tracing make) ho
    (o.parameters_orPledge source.size) log
  cases hmade : make (o.orPledge source.size) with
  | error e =>
      rw [tracing_of_error hmade] at hsetUp
      simp only [compress, ho, hsetUp] at hc
      subst hc
      exact .unmade rfl rfl
  | ok codec =>
      rw [tracing_of_ok hmade] at hsetUp
      obtain ⟨hprogress, hfilling⟩ := hmake _ codec hmade
      simp only [compress, ho, hsetUp] at hc
      refine OneShot.went ?_ hc hmemory
      have hnew := primed_new (⟨codec, #[]⟩ : Recorded κ) log' o.destinationLength_pos
      have hwork : Ensures (do
            feedAll memory turns (.ofBytes source)
            finish memory turns : Work (Recorded κ) Unit) _
          (fun _ o' => ∃ calls, Roomed _ o.destinationLength calls o')
          (fun x o' => OneShot.Blamed memory o.destinationLength _ o'.codec x) :=
        Ensures.bind (feedAll_primed (hprogress.recorded #[]) turns hnew)
          fun _ o₁ h₁ => finish_primed (hfilling.recorded #[]) turns h₁
      refine hwork.mono ?_ fun x o' hx => tells_traced.unstuck_of_oneShot hx
      intro _ o' hroomed
      obtain ⟨calls, hroomed⟩ := hroomed
      exact tells_traced.unstuck_of_ok hroomed.roomy

omit hmake in
/-- A compressing reader is not stuck, whether its codec makes progress or not. -/
theorem CompressingReader.created_unstuck {ρ : Type} [Reader ρ]
    (hmemory : memory.Serves o.sourceLength o.destinationLength) (reader : ρ) (log : Log) :
    Created (make o)
      (fun first => ∀ served c, Asked first served c → ∀ turns room,
        Unstuck Error.toIoError (c.read turns room).2.session.codec.record
          (c.read turns room).2.reader.calls (fun _ => False) (c.read turns room).1)
      (create memory (tracing make) o (Observed.new reader) log).1 := by
  cases hmade : make o with
  | error e =>
      obtain ⟨log', hcreate⟩ := create_fails ho hmemory.source (tracing_of_error hmade)
        (Observed.new reader) log
      rw [hcreate]
      exact .unmade rfl
  | ok codec =>
      obtain ⟨log', hcreate⟩ := create_opens ho hmemory (tracing_of_ok hmade)
        (Observed.new reader) log
      rw [hcreate]
      refine .new ?_
      intro served c hasked turns room
      have hnew := running_new (⟨codec, #[]⟩ : Recorded κ) reader o.sourceLength_pos
        o.destinationLength_pos
      obtain ⟨-, calls, hroomy, hx⟩ := (hasked.running hnew).read turns room
      refine tells_traced.unstuck hroomy fun io hio => ?_
      obtain ⟨e, he, hcall⟩ := hx io hio
      exact ⟨e, he, Or.inl hcall⟩

theorem CompressingWriter.created_unhindered {ω : Type} [Writer ω]
    (hdestination : memory.grants o.destinationLength = true) (writer : ω) (log : Log) :
    Created (make o)
      (fun first => ∀ done c, Written first done c → Unhindered o.destinationLength c)
      (create memory (tracing make) o (Observed.new writer) log).1 := by
  cases hmade : make o with
  | error e =>
      obtain ⟨log', hcreate⟩ := create_fails ho (tracing_of_error hmade) (Observed.new writer) log
      rw [hcreate]
      exact .unmade rfl
  | ok codec =>
      obtain ⟨log', hcreate⟩ := create_opens ho hdestination (tracing_of_ok hmade)
        (Observed.new writer) log
      rw [hcreate]
      refine .new ?_
      intro done c hwritten
      obtain ⟨hprogress, hfilling⟩ := hmake o codec hmade
      have hnew := Session.posted_new (⟨codec, #[]⟩ : Recorded κ) o.destinationLength_pos
      obtain ⟨calls, hposts⟩ := hwritten.posts (hprogress.recorded #[]) (hfilling.recorded #[]) hnew
      exact hposts.unhindered tells_traced (hprogress.recorded #[]) (hfilling.recorded #[])

end Compress

/-! ## Decompression -/

section Decompress

variable {κ : Type} [Codec κ] {memory : Memory} {make : DecompressorOptions → Except Error κ}
  {o : DecompressorOptions} (ho : o.validate = .ok ())
  (hmake : ∀ o' start, make o' = .ok start → Progressing start)

include ho hmake

omit ho hmake in
/-- If all that was received has been used, the end of the input may only be refused. -/
theorem Pump.endOfInput_unstuck {ε : Type} {start : Framed (Recorded κ)} {calls : List StepCall}
    {p : Pump (Framed (Recorded κ)) (Observed ε)} (htells : Tells Framed.record start)
    (hroomy : Roomy start calls p.codec) (hused : takenBy calls = receivedBy p.ends.calls)
    (hquiescent : Quiescent calls) (hexhausted : Exhausted p.ends.calls) :
    Ensures endOfInput p (fun _ p' => p' = p)
      (fun x p' => Unstuck id p'.codec.record p'.ends.calls
        (fun e => Refuses p'.codec.record (receivedBy p'.ends.calls) p'.codec e
          ∧ Exhausted p'.ends.calls)
        (.error x : Except (Halt Error) Unit)) := by
  refine Ensures.intro (fun _ p' hw => ?_) (fun x p' hw => ?_)
  all_goals
    dsimp only [endOfInput] at hw
    split at hw <;> cases hw
  · rfl
  · next hrefused =>
    refine htells.unstuck_of_refused hroomy ⟨?_, hexhausted⟩
    rw [htells _ _ hroomy.steps]
    exact ⟨hused, hquiescent, hrefused⟩

theorem Stream.decompress_went {ε : Type} [Reader ε] [Writer ε]
    (hmemory : memory.Serves o.sourceLength o.destinationLength) (turns : Nat) (ends : ε)
    (log : Log) :
    let t := decompress memory (recording make) turns o (Observed.new ends) log
    Went (make o) Framed.record
      (fun f e => Refuses f.record (receivedBy t.ends.calls) f e ∧ Exhausted t.ends.calls)
      t.ends.calls t.result t.codec := by
  obtain ⟨log', hsetUp⟩ := DecompressorOptions.setUp_opens (recording make) ho log
  cases hmade : make o with
  | error e =>
      rw [recording_of_error hmade] at hsetUp
      simp only [decompress, ho, hsetUp]
      exact .unmade rfl rfl
  | ok codec =>
      rw [recording_of_ok hmade] at hsetUp
      have hprogress := ((hmake o codec hmade).recorded #[]).framed false
      simp only [decompress, ho, hsetUp]
      refine Stream.went (fun ends (f : Framed (Recorded κ)) e =>
        Refuses f.record (receivedBy ends) f e ∧ Exhausted ends) hmemory fun log'' => ?_
      have hnew := Pump.primed_new ({ codec := ⟨codec, #[]⟩ } : Framed (Recorded κ)) ends log''
        o.sourceLength o.destinationLength_pos
      have hfed := Pump.fed_new ({ codec := ⟨codec, #[]⟩ } : Framed (Recorded κ)) ends log''
        o.sourceLength o.destinationLength_pos
      -- where the source has been read, the codec was fed all that was received
      have hread := (Pump.readSource_primed hprogress turns hnew o.sourceLength_pos).and
        (Pump.readSource_ensures turns hfed unended_nil)
      refine Ensures.bind (Ensures.mono hread (fun _ _ h => h)
        fun x p hx => tells_framed.unstuck_of_blamed hx.1) ?_
      rintro _ p₁ ⟨h₁, hexhausted, hnil, calls, hfed₁, hquiescent⟩
      have hused : takenBy calls = receivedBy p₁.ends.calls := by
        rw [hfed₁.source, hnil, List.append_nil]
      obtain ⟨calls', hroomy⟩ := h₁.roomy
      -- what is told of the room is told of the same calls
      obtain rfl : calls = calls' :=
        (tells_framed _ _ hfed₁.steps).symm.trans (tells_framed _ _ hroomy.steps)
      refine Ensures.bind (Pump.endOfInput_unstuck tells_framed hroomy hused hquiescent hexhausted)
        fun _ p₂ h₂ => ?_
      subst h₂
      refine Ensures.mono (Pump.complete_primed turns ⟨_, hroomy⟩) ?_
        fun x p hx => tells_framed.unstuck_of_blamed hx
      intro _ p hroomy'
      obtain ⟨calls', hroomy'⟩ := hroomy'
      exact tells_framed.unstuck_of_ok hroomy'

theorem OneShot.decompress_went (turns : Nat) (source : ByteArray) (log : Log)
    {c : Conversion (Framed (Recorded κ))}
    (hc : decompress memory (recording make) turns o source log = c)
    (hmemory : c.Granted Framed.record memory o.destinationLength) :
    Went (make o) Framed.record (fun f => Refuses f.record source.data.toList f) [] c.result
      c.codec := by
  obtain ⟨log', hsetUp⟩ := DecompressorOptions.setUp_opens (recording make) ho log
  cases hmade : make o with
  | error e =>
      rw [recording_of_error hmade] at hsetUp
      simp only [decompress, ho, hsetUp] at hc
      subst hc
      exact .unmade rfl rfl
  | ok codec =>
      rw [recording_of_ok hmade] at hsetUp
      have hprogress := ((hmake o codec hmade).recorded #[]).framed false
      simp only [decompress, ho, hsetUp] at hc
      refine OneShot.went ?_ hc hmemory
      have hnew := primed_new ({ codec := ⟨codec, #[]⟩ } : Framed (Recorded κ)) log'
        o.destinationLength_pos
      have hfed := fed_new ({ codec := ⟨codec, #[]⟩ } : Framed (Recorded κ)) (.ofBytes source) log'
        o.destinationLength_pos
      -- the frames, which use all of the source, and then whether it may end behind them
      refine Ensures.bind (Ensures.mono
        ((feedFrames_primed hprogress turns hnew).and (feedFrames_ensures turns hfed))
        (fun _ _ h => h) fun x o' hx => tells_framed.unstuck_of_oneShot hx.1) ?_
      rintro _ o₁ ⟨⟨_, hroomed⟩, calls, hfeeding, hused, -, hquiescent⟩
      have hrecord : o₁.codec.record = calls := tells_framed _ _ hfeeding.steps
      refine Ensures.intro (fun _ o₂ hw => ?_) (fun x o₂ hw => ?_)
      all_goals
        dsimp only [endOfInput] at hw
        split at hw <;> cases hw
      · exact tells_framed.unstuck_of_ok hroomed.roomy
      · next hrefused =>
        intro _
        refine tells_framed.unstuck_of_refused hroomed.roomy ?_
        rw [hrecord]
        exact ⟨hused.trans (Slice.toList_ofBytes source), hquiescent, hrefused⟩

theorem DecompressingReader.created_unstuck {ρ : Type} [Reader ρ]
    (hmemory : memory.Serves o.sourceLength o.destinationLength) (reader : ρ) (log : Log) :
    Created (make o) (fun first => ∀ d, Resumed first d → ∀ turns room, d.Unstuck turns room)
      (create memory (recording make) o (Observed.new reader) log).1 := by
  cases hmade : make o with
  | error e =>
      obtain ⟨log', hcreate⟩ := create_fails ho hmemory.source (recording_of_error hmade)
        (Observed.new reader) log
      rw [hcreate]
      exact .unmade rfl
  | ok codec =>
      obtain ⟨log', hcreate⟩ := create_opens ho hmemory (recording_of_ok hmade)
        (Observed.new reader) log
      rw [hcreate]
      refine .new ?_
      intro d hresumed turns room
      have hprogress := ((hmake o codec hmade).recorded #[]).framed false
      have hnew := running_new ({ codec := ⟨codec, #[]⟩ } : Framed (Recorded κ)) reader
        o.sourceLength_pos o.destinationLength_pos
      obtain ⟨_, hrunning⟩ := hresumed.running tells_framed hprogress hnew
      obtain ⟨calls, hroomy, hx, -⟩ := hrunning.read turns room hprogress
      refine tells_framed.unstuck hroomy ?_
      rw [tells_framed _ _ hroomy.steps]
      exact hx

theorem DecompressingWriter.created_unhindered {ω : Type} [Writer ω]
    (hdestination : memory.grants o.destinationLength = true) (writer : ω) (log : Log) :
    Created (make o)
      (fun first => ∀ done d, Written first done d → Unhindered o.destinationLength done d)
      (create memory (recording make) o (Observed.new writer) log).1 := by
  cases hmade : make o with
  | error e =>
      obtain ⟨log', hcreate⟩ := create_fails ho (recording_of_error hmade) (Observed.new writer) log
      rw [hcreate]
      exact .unmade rfl
  | ok codec =>
      obtain ⟨log', hcreate⟩ := create_opens ho hdestination (recording_of_ok hmade)
        (Observed.new writer) log
      rw [hcreate]
      refine .new ?_
      intro done d hwritten
      have hprogress := ((hmake o codec hmade).recorded #[]).framed false
      have hnew := Session.posted_new ({ codec := ⟨codec, #[]⟩ } : Framed (Recorded κ))
        o.destinationLength_pos
      have hfirst := relayed_new ({ codec := ⟨codec, #[]⟩ } : Framed (Recorded κ)) writer
        o.destinationLength_pos
      obtain ⟨calls, hposts⟩ := hwritten.posts hprogress hnew
      -- the calls are those of the record, so what they used is what was written
      obtain ⟨calls', hrelayed, rfl⟩ := hwritten.relayed hfirst
      obtain rfl : calls = calls' :=
        (tells_framed _ _ hposts.roomy.steps).symm.trans (tells_framed _ _ hrelayed.steps)
      exact hposts.unhindered hrelayed tells_framed hprogress

end Decompress

/-! ## Whatever the lengths of the buffers -/

/-- **Nothing gets stuck around a codec that makes progress.** Let the options be valid, with
buffers of any length, and what is asked of memory be granted; and let a step of the codec that is
fed something and leaves room have used some of it; for compression, let a flush or a finish that
has more to come have filled its room. Then each call of the codec has room, and whatever a stream
or a one-shot operation, a reader or a writer fails with is the failure of a call of the codec, the
reader or the writer; or else it has used all there is of its input and been given all that comes of
it, and the input may not end there. A writer repeats a call only behind a destination that has been
filled and written out. -/
theorem drivers_never_get_stuck {κ : Type} [Codec κ] (memory : Memory) (log : Log) :
    (∀ (make : CompressorOptions → Except Error κ) (o : CompressorOptions),
      o.validate = .ok () →
      (∀ o' start, make o' = .ok start → Progressing start ∧ Filling start) →
      (memory.Serves o.sourceLength o.destinationLength →
        ∀ (ε : Type) [Reader ε] [Writer ε] (ends : ε) (turns : Nat)
          (t : Transfer (Recorded κ) (Observed ε)),
        Stream.compress memory (tracing make) turns o (Observed.new ends) log = t →
        Went (make o) Recorded.record (fun _ _ => False) t.ends.calls t.result t.codec)
      ∧ (∀ (source : ByteArray) (turns : Nat) (c : Conversion (Recorded κ)),
        OneShot.compress memory (tracing make) turns o source log = c →
        c.Granted Recorded.record memory o.destinationLength →
        Went (make (o.orPledge source.size)) Recorded.record (fun _ _ => False) [] c.result c.codec)
      ∧ (memory.Serves o.sourceLength o.destinationLength →
        ∀ (ρ : Type) [Reader ρ] (reader : ρ), Created (make o)
          (fun first => ∀ served c, CompressingReader.Asked first served c → ∀ turns room,
            Unstuck Error.toIoError (c.read turns room).2.session.codec.record
              (c.read turns room).2.reader.calls (fun _ => False) (c.read turns room).1)
          (CompressingReader.create memory (tracing make) o (Observed.new reader) log).1)
      ∧ (memory.grants o.destinationLength = true →
        ∀ (ω : Type) [Writer ω] (writer : ω), Created (make o)
          (fun first => ∀ done c, CompressingWriter.Written first done c →
            c.Unhindered o.destinationLength)
          (CompressingWriter.create memory (tracing make) o (Observed.new writer) log).1))
    ∧ ∀ (make : DecompressorOptions → Except Error κ) (o : DecompressorOptions),
      o.validate = .ok () →
      (∀ o' start, make o' = .ok start → Progressing start) →
      (memory.Serves o.sourceLength o.destinationLength →
        ∀ (ε : Type) [Reader ε] [Writer ε] (ends : ε) (turns : Nat)
          (t : Transfer (Framed (Recorded κ)) (Observed ε)),
        Stream.decompress memory (recording make) turns o (Observed.new ends) log = t →
        Went (make o) Framed.record
          (fun f e => Refuses f.record (receivedBy t.ends.calls) f e ∧ Exhausted t.ends.calls)
          t.ends.calls t.result t.codec)
      ∧ (∀ (source : ByteArray) (turns : Nat) (c : Conversion (Framed (Recorded κ))),
        OneShot.decompress memory (recording make) turns o source log = c →
        c.Granted Framed.record memory o.destinationLength →
        Went (make o) Framed.record (fun f => Refuses f.record source.data.toList f) [] c.result
          c.codec)
      ∧ (memory.Serves o.sourceLength o.destinationLength →
        ∀ (ρ : Type) [Reader ρ] (reader : ρ), Created (make o)
          (fun first => ∀ d, DecompressingReader.Resumed first d → ∀ turns room,
            d.Unstuck turns room)
          (DecompressingReader.create memory (recording make) o (Observed.new reader) log).1)
      ∧ (memory.grants o.destinationLength = true →
        ∀ (ω : Type) [Writer ω] (writer : ω), Created (make o)
          (fun first => ∀ done d, DecompressingWriter.Written first done d →
            d.Unhindered o.destinationLength done)
          (DecompressingWriter.create memory (recording make) o (Observed.new writer) log).1) := by
  refine ⟨fun make o ho hmake => ⟨?_, ?_, ?_, ?_⟩, fun make o ho hmake => ⟨?_, ?_, ?_, ?_⟩⟩
  · intro hmemory ε _ _ ends turns t ht
    subst ht
    exact Stream.compress_went ho hmake hmemory turns ends log
  · intro source turns c hc hmemory
    exact OneShot.compress_went ho hmake turns source log hc hmemory
  · intro hmemory ρ _ reader
    exact CompressingReader.created_unstuck ho hmemory reader log
  · intro hdestination ω _ writer
    exact CompressingWriter.created_unhindered ho hmake hdestination writer log
  · intro hmemory ε _ _ ends turns t ht
    subst ht
    exact Stream.decompress_went ho hmake hmemory turns ends log
  · intro source turns c hc hmemory
    exact OneShot.decompress_went ho hmake turns source log hc hmemory
  · intro hmemory ρ _ reader
    exact DecompressingReader.created_unstuck ho hmake hmemory reader log
  · intro hdestination ω _ writer
    exact DecompressingWriter.created_unhindered ho hmake hdestination writer log

/-! ### Buffers of one byte -/

/-- A codec that holds back what it is fed until it is to put it out. -/
structure Hoard where
  held : List UInt8

namespace Hoard

def step (h : Hoard) (input : Slice) (room : Nat) (directive : Directive) :
    Except Error Step × Hoard :=
  match directive with
  | .feed => (.ok ⟨input.size, .empty, .pending⟩, ⟨h.held ++ input.toList⟩)
  | _ => (.ok ⟨0, ⟨(h.held.take room).toArray⟩,
      if h.held.length ≤ room then .done else .pending⟩, ⟨h.held.drop room⟩)

instance : Codec Hoard where
  step := step
  endOfInput _ := .ok ()
  consumed_le {_ _ input room directive s} h := by
    cases directive <;> cases h
    · exact Nat.le_refl _
    all_goals exact Nat.zero_le _
  produced_le {_ _ input room directive s} h := by
    cases directive <;> cases h
    · exact Nat.zero_le _
    all_goals exact List.length_take_le _ _

variable {start hoard : Hoard} {calls : List StepCall}

/-- A hoard takes all it is fed, and fills its room as long as it holds more. -/
theorem goes_on (h : Steps start calls hoard) : ∀ c ∈ calls, c.Advances ∧ c.Fills := by
  induction h with
  | nil => simp
  | @snoc calls hoard hoard' input room directive result _ hstep ih =>
      refine List.forall_mem_append.mpr ⟨ih, List.forall_mem_singleton.mpr ?_⟩
      cases directive with
      | feed =>
          cases hstep
          refine ⟨fun _ _ hinput _ _ => ?_, fun hfeed => absurd rfl hfeed⟩
          simpa [StepCall.taken, ← Slice.length_toList] using hinput
      | flush | finish =>
          -- more is to come only if more is held than there is room for
          cases hstep
          refine ⟨fun hfeed => (by cases hfeed), fun _ _ hpending => ?_⟩
          have hmore : room < hoard.held.length := by simpa [StepCall.isDone] using hpending
          simp [StepCall.LeavesRoom, StepCall.given, Nat.min_eq_left (Nat.le_of_lt hmore)]

theorem progressing : Progressing start :=
  fun _ _ hsteps c hc => (goes_on hsteps c hc).1

theorem filling : Filling start :=
  fun _ _ hsteps c hc => (goes_on hsteps c hc).2

def make {ο : Type} (_ : ο) : Except Error Hoard := .ok ⟨[]⟩

end Hoard

theorem Echo.progressing (completion : Completion) : Progressing (⟨completion⟩ : Echo) :=
  fun _ _ hsteps c hc _ _ hinput _ hleaves =>
    ((answers hsteps).2 c hc).taken_ne_nil hinput hleaves

namespace Single

def ends : Ends Slice ByteArray := ⟨.ofBytes ⟨#[1, 2, 3]⟩, .empty⟩

/-- Three bytes that are compressed through buffers of one byte. -/
def compressed : Transfer (Recorded Hoard) (Observed (Ends Slice ByteArray)) :=
  Stream.compress .machine (tracing Hoard.make) 9
    { sourceBufferLength := 1, destinationBufferLength := 1 } (Observed.new ends) #[]

/-- Three bytes that are decompressed through buffers of one byte. -/
def decompressed : Transfer (Framed (Recorded Echo)) (Observed (Ends Slice ByteArray)) :=
  Stream.decompress .machine (recording (Echo.make .done)) 9
    { sourceBufferLength := 1, destinationBufferLength := 1 } (Observed.new ends) #[]

/-- Three bytes that leave a frame open, decompressed in one shot. -/
def truncated : Conversion (Framed (Recorded Echo)) :=
  OneShot.decompress .machine (recording (Echo.make .pending)) 9 { destinationBufferLength := 1 }
    ⟨#[1, 2, 3]⟩ #[]

end Single

/-- Three bytes go through buffers of one byte, one by one. Those that leave a frame open are
refused when all of them have been used. -/
theorem drivers_never_get_stuck_on_single_bytes :
    let t := Single.compressed
    let t' := Single.decompressed
    let c := Single.truncated
    (Progressing (⟨[]⟩ : Hoard) ∧ Filling (⟨[]⟩ : Hoard)
        ∧ Went (Hoard.make ()) Recorded.record (fun _ _ => False) t.ends.calls t.result t.codec
        ∧ t.codec.map (fun c => c.record.map StepCall.room) = some [1, 1, 1, 1, 1, 1]
        ∧ t.result = .ok ())
      ∧ (Progressing (⟨.done⟩ : Echo)
        ∧ Went (Echo.make .done ()) Framed.record
          (fun f e => Refuses f.record (receivedBy t'.ends.calls) f e ∧ Exhausted t'.ends.calls)
          t'.ends.calls t'.result t'.codec
        ∧ t'.codec.map (fun f => f.record.map StepCall.room) = some [1, 1, 1, 1, 1, 1]
        ∧ t'.result = .ok ())
      ∧ Progressing (⟨.pending⟩ : Echo)
        ∧ Went (Echo.make .pending ()) Framed.record (fun f => Refuses f.record [1, 2, 3] f) []
          c.result c.codec
        ∧ c.codec.map (fun f => takenBy f.record) = some [1, 2, 3]
        ∧ c.result = .error (.failed .corruptedSource) := by
  have hhoard : ∀ (o : CompressorOptions) start, Hoard.make o = .ok start →
      Progressing start ∧ Filling start :=
    fun _ _ h => by cases h; exact ⟨Hoard.progressing, Hoard.filling⟩
  have hecho : ∀ (completion : Completion) (o : DecompressorOptions) start,
      Echo.make completion o = .ok start → Progressing start :=
    fun completion _ _ h => by cases h; exact Echo.progressing completion
  obtain ⟨hcompress, -⟩ := drivers_never_get_stuck (κ := Hoard) .machine #[]
  obtain ⟨-, hdecompress⟩ := drivers_never_get_stuck (κ := Echo) .machine #[]
  obtain ⟨ht, -⟩ := hcompress Hoard.make { sourceBufferLength := 1, destinationBufferLength := 1 }
    rfl hhoard
  obtain ⟨ht', -⟩ := hdecompress (Echo.make .done)
    { sourceBufferLength := 1, destinationBufferLength := 1 } rfl (hecho .done)
  obtain ⟨-, hc, -⟩ := hdecompress (Echo.make .pending) { destinationBufferLength := 1 } rfl
    (hecho .pending)
  -- three bytes have come out, and the machine has memory for one more
  have hgranted : Single.truncated.Granted Framed.record .machine 1 := by
    have hgiven : Single.truncated.codec.map (fun f => (givenBy f.record).length) = some 3 := by
      decide +kernel
    intro f hf
    rw [Option.mem_def.mp hf, Option.map_some, Option.some.injEq] at hgiven
    rw [hgiven]
    exact .machine (by decide)
  exact ⟨⟨Hoard.progressing, Hoard.filling, ht ⟨rfl, rfl⟩ _ Single.ends 9 _ rfl, by decide +kernel,
      by cbv⟩,
    ⟨Echo.progressing .done, ht' ⟨rfl, rfl⟩ _ Single.ends 9 _ rfl, by decide +kernel, by cbv⟩,
    Echo.progressing .pending, hc _ 9 _ rfl hgranted, by decide +kernel, by cbv⟩

end Zstandard
