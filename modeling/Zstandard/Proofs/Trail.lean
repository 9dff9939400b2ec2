import Zstandard.Proofs.Failures
import Zstandard.Pump

/-!
# The trail of a pump

The calls of a pump, those of its codec and those of its ends, make one history (`PumpCall`). An
operation is a sequence of single moves, each of which makes some calls (`Move.calls`). A `Trail` is
such a sequence as far as no move has failed, and `History` is all of a run, with the move that has.
Every operation is made of moves (`MadeOfMoves`), and so is every sequence of operations.
-/

namespace Zstandard

/-! ## Histories -/

/-- A call that a pump makes: of its codec, or of its ends. -/
inductive PumpCall where
  | step (call : StepCall)
  | ends (call : EndCall)

namespace PumpCall

/-- The failure that the call brings. -/
def error? : PumpCall → Option Error
  | .step c => c.error?
  | .ends c => c.error?

def step? : PumpCall → Option StepCall
  | .step c => some c
  | .ends _ => none

def ends? : PumpCall → Option EndCall
  | .step _ => none
  | .ends c => some c

end PumpCall

/-- The calls of the codec. -/
def stepsOf (calls : List PumpCall) : List StepCall := calls.filterMap PumpCall.step?

/-- The calls of the ends. -/
def endsOf (calls : List PumpCall) : List EndCall := calls.filterMap PumpCall.ends?

@[simp] theorem stepsOf_append (a b : List PumpCall) : stepsOf (a ++ b) = stepsOf a ++ stepsOf b :=
  List.filterMap_append

@[simp] theorem endsOf_append (a b : List PumpCall) : endsOf (a ++ b) = endsOf a ++ endsOf b :=
  List.filterMap_append

@[simp] theorem stepsOf_step (c : StepCall) : stepsOf [.step c] = [c] := rfl

@[simp] theorem endsOf_step (c : StepCall) : endsOf [.step c] = [] := rfl

@[simp] theorem stepsOf_ends (calls : List EndCall) : stepsOf (calls.map .ends) = [] := by
  simp [stepsOf, PumpCall.step?]

@[simp] theorem endsOf_ends (calls : List EndCall) : endsOf (calls.map .ends) = calls := by
  simp only [endsOf, List.filterMap_map]
  exact List.filterMap_some

namespace Pump

variable {κ ε : Type}

/-! ## Single moves -/

/-- Writes out what is left. -/
def writeRest [Writer ε] (turns : Nat) : Work κ ε Unit := fun p =>
  match p with
  | ⟨codec, ends, source, destination, readTotal, writtenTotal, log⟩ =>
    let size := destination.bytes.size
    let writtenTotal := writtenTotal + size
    let log := if size = 0 then log else log.push (.flushed size)
    match destination.writeRemaining turns ends with
    | (.error h, destination, ends) =>
      .error h ⟨codec, ends, source, destination, readTotal, writtenTotal, log⟩
    | (.ok (), destination, ends) =>
      .ok () ⟨codec, ends, source, destination, readTotal, writtenTotal, log⟩

/-- Flushes the writer. -/
def handOn [Writer ε] : Work κ ε Unit := fun p =>
  match p with
  | ⟨codec, ends, source, destination, readTotal, writtenTotal, log⟩ =>
    match Writer.flush ends with
    | (.error e, ends) =>
      .error (.failed (.writeIo e))
        ⟨codec, ends, source, destination, readTotal, writtenTotal, log⟩
    | (.ok (), ends) =>
      .ok () ⟨codec, ends, source, destination, readTotal, writtenTotal,
        log.push (.streamDone readTotal writtenTotal)⟩

/-- Completing is writing out what is left, and a flush of the writer. -/
theorem complete_eq [Writer ε] (turns : Nat) :
    (complete turns : Work κ ε Unit) = (do writeRest turns; handOn) := by
  funext p
  obtain ⟨codec, ends, source, destination, readTotal, writtenTotal, log⟩ := p
  show _ = EStateM.bind (writeRest turns) (fun _ => handOn) _
  simp only [complete, EStateM.bind, writeRest]
  cases hrest : destination.writeRemaining turns ends with
  | mk result rest =>
      cases result with
      | error h => rfl
      | ok => rfl

/-- The single moves of a pump. -/
inductive Move where
  | refill
  | feed
  | close
  | flush
  | writeRest
  | handOn

/-- The result without its value. -/
def forget {σ δ α : Type} : EStateM.Result δ σ α → EStateM.Result δ σ Unit
  | .ok _ s => .ok () s
  | .error x s => .error x s

variable [Codec κ]

namespace Move

/-- What a move does. -/
def act [Reader ε] [Writer ε] (turns : Nat) : Move → Work κ ε Unit
  | .refill => fun p => forget (Pump.refill turns p)
  | .feed => fun p => forget (Pump.feed p)
  | .close => fun p => forget (Pump.close p)
  | .flush => Pump.flush turns
  | .writeRest => Pump.writeRest turns
  | .handOn => Pump.handOn

/-- The call of the codec that a move makes. -/
def step? (p : Pump κ ε) : Move → Option StepCall
  | .feed => some ⟨p.source.pending, p.destination.free, .feed,
      (Codec.step p.codec p.source.pending p.destination.free .feed).1⟩
  | .close => some ⟨.empty, p.destination.free, .finish,
      (Codec.step p.codec .empty p.destination.free .finish).1⟩
  | _ => none

/-- The calls that a move has made on its way from `p` to `p'`. -/
def calls (m : Move) (p p' : Pump κ (Observed ε)) : List PumpCall :=
  (m.step? p).toList.map .step ++ (p'.ends.calls.drop p.ends.calls.length).map .ends

/-- A move that steps the codec makes no other call. -/
theorem calls_of_step {m : Move} {p p' : Pump κ (Observed ε)} {c : StepCall}
    (hstep : m.step? p = some c) (hends : p'.ends = p.ends) : m.calls p p' = [.step c] := by
  simp [calls, hstep, hends]

theorem calls_of_ends {m : Move} {p p' : Pump κ (Observed ε)} {more : List EndCall}
    (hstep : m.step? p = none) (hends : p'.ends.calls = p.ends.calls ++ more) :
    m.calls p p' = more.map .ends := by
  simp [calls, hstep, hends]

end Move

/-! ## Trails -/

section Trail

variable [Reader ε] [Writer ε]

/-- Single moves that lead from `p` to another pump, and the calls they make. -/
inductive Trail (p : Pump κ (Observed ε)) : List PumpCall → Pump κ (Observed ε) → Prop where
  | nil : Trail p [] p
  | snoc {calls : List PumpCall} {q q' : Pump κ (Observed ε)} (m : Move) (turns : Nat) :
      Trail p calls q → m.act turns q = .ok () q' → Trail p (calls ++ m.calls q q') q'

/-- What a pump gives up with between two moves. -/
inductive GivesUp : Halt Error → Prop where
  | outOfTurns : GivesUp .outOfTurns
  | remainder :
      GivesUp (.failed (.readIo (.plain .invalidData "source remainder was not consumed")))

/-- The calls of a run: those of a trail, and of the move that failed behind it, if any. -/
def History {α : Type} (p : Pump κ (Observed ε)) (calls : List PumpCall) :
    EStateM.Result (Halt Error) (Pump κ (Observed ε)) α → Prop
  | .ok _ q => Trail p calls q
  | .error x q => ∃ before q₀, Trail p before q₀
      ∧ ((∃ (m : Move) (turns : Nat), m.act turns q₀ = .error x q ∧ calls = before ++ m.calls q₀ q)
        ∨ (q₀ = q ∧ calls = before ∧ GivesUp x))

theorem Trail.trans {p q r : Pump κ (Observed ε)} {a b : List PumpCall} (h : Trail p a q)
    (h' : Trail q b r) : Trail p (a ++ b) r := by
  -- on the second trail: its moves are put behind the first, one by one
  induction h' with
  | nil => rwa [List.append_nil]
  | snoc m turns _ hact ih =>
      rw [← List.append_assoc]
      exact ih.snoc m turns hact

/-- A run behind a trail. -/
theorem Trail.history {α : Type} {p q : Pump κ (Observed ε)} {a b : List PumpCall}
    {result : EStateM.Result (Halt Error) (Pump κ (Observed ε)) α} (h : Trail p a q)
    (h' : History q b result) : History p (a ++ b) result := by
  cases result with
  | ok _ r => exact h.trans h'
  | error x r =>
      obtain ⟨before, q₀, htrail, hlast⟩ := h'
      refine ⟨a ++ before, q₀, h.trans htrail, hlast.imp ?_ ?_⟩
      · rintro ⟨m, turns, hact, rfl⟩
        exact ⟨m, turns, hact, (List.append_assoc _ _ _).symm⟩
      · rintro ⟨rfl, rfl, hx⟩
        exact ⟨rfl, rfl, hx⟩

/-- Some work is made of single moves. -/
def MadeOfMoves {α : Type} (work : Work κ (Observed ε) α) : Prop :=
  ∀ p, ∃ calls, History p calls (work p)

section MadeOfMoves

variable {α β : Type}

theorem madeOfMoves_pure (a : α) :
    MadeOfMoves (pure a : Work κ (Observed ε) α) := fun _ => ⟨[], .nil⟩

theorem madeOfMoves_throw {x : Halt Error} (hx : GivesUp x) :
    MadeOfMoves (throw x : Work κ (Observed ε) α) :=
  fun p => ⟨[], [], p, .nil, Or.inr ⟨rfl, rfl, hx⟩⟩

theorem MadeOfMoves.bind {work : Work κ (Observed ε) α} {k : α → Work κ (Observed ε) β}
    (h : MadeOfMoves work) (hk : ∀ a, MadeOfMoves (k a)) : MadeOfMoves (work >>= k) := by
  intro p
  obtain ⟨calls, hcalls⟩ := h p
  cases hw : work p with
  | ok a q =>
      -- what follows starts where the first work has ended
      rw [hw] at hcalls
      obtain ⟨calls', hcalls'⟩ := hk a q
      rw [bind_of_ok hw]
      exact ⟨calls ++ calls', Trail.history hcalls hcalls'⟩
  | error x q =>
      rw [hw] at hcalls
      rw [bind_of_error hw]
      exact ⟨calls, hcalls⟩

/-- Looking at the pump is no move. -/
theorem madeOfMoves_get {k : Pump κ (Observed ε) → Work κ (Observed ε) α}
    (h : ∀ p, MadeOfMoves (k p)) : MadeOfMoves (get >>= k) := fun p => h p p

theorem madeOfMoves_move (m : Move) (turns : Nat) {work : Work κ (Observed ε) α}
    (hwork : ∀ p, m.act turns p = forget (work p)) : MadeOfMoves work := by
  intro p
  have hact := hwork p
  cases hw : work p with
  | ok a q =>
      rw [hw] at hact
      exact ⟨[] ++ m.calls p q, .snoc m turns .nil hact⟩
  | error x q =>
      rw [hw] at hact
      exact ⟨m.calls p q, [], p, .nil, Or.inl ⟨m, turns, hact, rfl⟩⟩

end MadeOfMoves

/-! ## Operations are made of moves -/

theorem madeOfMoves_feed : MadeOfMoves (feed : Work κ (Observed ε) Step) :=
  madeOfMoves_move .feed 0 fun _ => rfl

theorem madeOfMoves_flush (turns : Nat) :
    MadeOfMoves (flush turns : Work κ (Observed ε) Unit) := by
  refine madeOfMoves_move .flush turns fun p => ?_
  show flush turns p = forget (flush turns p)
  cases flush turns p <;> rfl

theorem madeOfMoves_feedPending : ∀ (turns : Nat) (progress : Bool),
    MadeOfMoves (feedPending turns progress : Work κ (Observed ε) Bool) := by
  intro turns
  induction turns with
  | zero => exact fun _ => madeOfMoves_throw .outOfTurns
  | succ turns ih =>
      intro progress
      -- each turn is a step, and a flush if that has filled the destination
      refine madeOfMoves_feed.bind fun s => madeOfMoves_get fun p => ?_
      split
      · exact (madeOfMoves_flush turns).bind fun _ => ih _
      · exact madeOfMoves_pure _

theorem madeOfMoves_feedReader : ∀ (turns : Nat) (fed : Bool),
    MadeOfMoves (feedReader turns fed : Work κ (Observed ε) Bool) := by
  intro turns
  induction turns with
  | zero => exact fun _ => madeOfMoves_throw .outOfTurns
  | succ turns ih =>
      intro fed
      have hrefill : MadeOfMoves (refill turns : Work κ (Observed ε) Refill) :=
        madeOfMoves_move .refill turns fun _ => rfl
      refine hrefill.bind fun result => ?_
      cases result with
      | read n => exact (madeOfMoves_feedPending turns false).bind fun _ => ih true
      | finished => exact madeOfMoves_pure fed

theorem madeOfMoves_feedRemainder : ∀ (turns : Nat) (fed : Bool),
    MadeOfMoves (feedRemainder turns fed : Work κ (Observed ε) Bool) := by
  intro turns
  induction turns with
  | zero => exact fun _ => madeOfMoves_throw .outOfTurns
  | succ turns ih =>
      intro fed
      refine madeOfMoves_get fun p => ?_
      split
      · exact madeOfMoves_pure fed
      · refine (madeOfMoves_feedPending turns false).bind fun progress => ?_
        cases progress with
        | true => exact ih true
        | false =>
            -- no call has failed: the pump itself gives up
            exact madeOfMoves_throw .remainder

theorem madeOfMoves_readSource (turns : Nat) :
    MadeOfMoves (readSource turns : Work κ (Observed ε) Unit) := by
  refine (madeOfMoves_feedReader turns false).bind fun fed =>
    (madeOfMoves_feedRemainder turns fed).bind fun fed => ?_
  cases fed with
  | true => exact madeOfMoves_pure ()
  | false => exact (madeOfMoves_feedPending turns false).bind fun _ => madeOfMoves_pure ()

theorem madeOfMoves_finish : ∀ turns : Nat,
    MadeOfMoves (finish turns : Work κ (Observed ε) Unit) := by
  intro turns
  induction turns with
  | zero => exact madeOfMoves_throw .outOfTurns
  | succ turns ih =>
      have hclose : MadeOfMoves (close : Work κ (Observed ε) Step) :=
        madeOfMoves_move .close 0 fun _ => rfl
      refine hclose.bind fun s => ?_
      cases s.completion with
      | pending => exact (madeOfMoves_flush turns).bind fun _ => ih
      | done => exact madeOfMoves_pure ()

theorem madeOfMoves_complete (turns : Nat) :
    MadeOfMoves (complete turns : Work κ (Observed ε) Unit) := by
  rw [complete_eq]
  refine (madeOfMoves_move .writeRest turns fun p => ?_).bind fun _ =>
    madeOfMoves_move .handOn turns fun p => ?_
  · show writeRest turns p = forget (writeRest turns p)
    cases writeRest turns p <;> rfl
  · show handOn p = forget (handOn p)
    cases handOn p <;> rfl

/-! ## Sequences of operations -/

/-- An operation of a pump. -/
inductive Operation where
  | readSource
  | finish
  | complete

/-- What an operation does. -/
def Operation.run (turns : Nat) : Operation → Work κ (Observed ε) Unit
  | .readSource => Pump.readSource turns
  | .finish => Pump.finish turns
  | .complete => Pump.complete turns

/-- Operations one after another, up to the first that fails. -/
def perform : List (Operation × Nat) → Work κ (Observed ε) Unit
  | [] => pure ()
  | (operation, turns) :: rest => do
    operation.run turns
    perform rest

theorem madeOfMoves_perform : ∀ operations : List (Operation × Nat),
    MadeOfMoves (perform operations : Work κ (Observed ε) Unit) := by
  intro operations
  induction operations with
  | nil => exact madeOfMoves_pure ()
  | cons next rest ih =>
      obtain ⟨operation, turns⟩ := next
      refine MadeOfMoves.bind ?_ fun _ => ih
      cases operation with
      | readSource => exact madeOfMoves_readSource turns
      | finish => exact madeOfMoves_finish turns
      | complete => exact madeOfMoves_complete turns

end Trail

end Pump

end Zstandard
