import Zstandard.Proofs.Compression
import Zstandard.Proofs.Decompression
import Zstandard.Proofs.Dialogue
import Zstandard.Proofs.Passages

/-!
# The books of a writer

In front of a writer that does not fail, a writer that compresses or decompresses accounts for every
byte, also when steps of its codec fail. Its books are in order (`Booked`): the writer behind has
accepted what the codec has put out, but for what the session holds, which leaves room. Each call
leaves them in order, and tells what it used: a write that succeeds has used as much as it says, one
that fails has used nothing, so it can be made again (`writers_keep_books`).

The books name the calls of the codec. What is done to them is done by single moves (`Booked.step`,
`Booked.delivered`, `Booked.flushed`); what a loop of moves has used is told by `Leads`.
-/

namespace Zstandard

section Books

variable {κ ω : Type} [Codec κ] [Writer ω] {fine : ω → Prop} {start : κ} {calls : List StepCall}
  {writer : Observed ω} {s s' : Session κ}

/-- The writer behind has accepted what the codec has put out, but for what the session holds. -/
structure Booked (fine : ω → Prop) (start : κ) (calls : List StepCall) (writer : Observed ω)
    (s : Session κ) : Prop where
  /-- The calls lead to the codec. -/
  steps : Steps start calls s.codec
  /-- What was put out has been accepted, or is in the session. -/
  output : givenBy calls = acceptedBy writer.calls ++ s.destination.bytes.data.toList
  /-- The session is active. -/
  active : s.phase = .active
  /-- There is a destination. -/
  capacity_pos : 0 < s.destination.capacity
  /-- The writer behind is one that does not fail. -/
  fine : fine writer.ends

omit [Writer ω] in
/-- A step is put in the books, whatever comes of it. -/
theorem Booked.step (h : Booked fine start calls writer s) {input : Slice} {directive : Directive}
    {result : Except Error Step} (hstep : s.step input directive = (result, s')) :
    Booked fine start (calls ++ [⟨input, s.destination.free, directive, result⟩]) writer s' := by
  obtain ⟨codec, destination, phase⟩ := s
  obtain rfl : phase = .active := h.active
  obtain ⟨result', codec', hcodec⟩ : ∃ result codec',
      Codec.step codec input destination.free directive = (result, codec') := ⟨_, _, rfl⟩
  have houtput := h.output
  cases result' with
  | ok st =>
      simp only [Session.step, hcodec] at hstep
      cases hstep
      refine ⟨h.steps.snoc hcodec, ?_, rfl, h.capacity_pos, h.fine⟩
      rw [givenBy_snoc_ok, houtput, DestinationBuffer.toList_append, List.append_assoc]
  | error e =>
      simp only [Session.step, hcodec] at hstep
      cases hstep
      refine ⟨h.steps.snoc hcodec, ?_, rfl, h.capacity_pos, h.fine⟩
      rw [givenBy_append, houtput]
      exact List.append_nil _

/-- A step that fails leaves the destination as it is. -/
theorem Session.destination_of_step_error {input : Slice} {directive : Directive} {e : Error}
    (hstep : s.step input directive = (.error e, s')) : s'.destination = s.destination := by
  obtain ⟨codec, destination, phase⟩ := s
  cases phase with
  | active =>
      unfold Session.step at hstep
      dsimp only at hstep
      split at hstep <;> cases hstep
      rfl
  | finished => cases hstep; rfl
  | closed => cases hstep; rfl

omit [Writer ω] in
/-- A push that succeeds is one call, that used what it says. -/
theorem Booked.pushed (h : Booked fine start calls writer s) {input : Slice} {p : Pushed}
    (hpush : s.push input = (.ok p, s')) :
    ∃ call : StepCall, Booked fine start (calls ++ [call]) writer s'
      ∧ call.taken = input.toList.take p.consumed ∧ p.consumed ≤ input.size
      ∧ p.full = s'.destination.isFull := by
  obtain ⟨result, s₁, hstep⟩ : ∃ r s₁, s.step input .feed = (r, s₁) := ⟨_, _, rfl⟩
  have hbooked := h.step hstep
  simp only [Session.push, hstep] at hpush
  cases result <;> cases hpush
  next st =>
  refine ⟨_, hbooked, rfl, ?_, rfl⟩
  obtain ⟨codec, destination, phase⟩ := s
  obtain rfl : phase = .active := h.active
  simp only [Session.step] at hstep
  split at hstep <;> cases hstep
  next hcodec => exact Codec.consumed_le hcodec

omit [Writer ω] in
/-- A push that fails is one call, that used nothing and put nothing out. -/
theorem Booked.push_failed (h : Booked fine start calls writer s) {input : Slice} {e : Error}
    (hpush : s.push input = (.error e, s')) :
    ∃ call : StepCall, Booked fine start (calls ++ [call]) writer s' ∧ call.taken = []
      ∧ s'.destination = s.destination := by
  obtain ⟨result, s₁, hstep⟩ : ∃ r s₁, s.step input .feed = (r, s₁) := ⟨_, _, rfl⟩
  have hbooked := h.step hstep
  simp only [Session.push, hstep] at hpush
  cases result <;> cases hpush
  exact ⟨_, hbooked, rfl, Session.destination_of_step_error hstep⟩

omit [Codec κ] in
/-- Writing everything to a writer in a fine state does not fail. -/
theorem writeAll_accepted (hobliges : Obliges fine) {turns : Nat} {o o' : Observed ω}
    {bytes : Slice} {result : Except (Halt IoError) Unit} (ho : fine o.ends)
    (hw : writeAll turns o bytes = (result, o')) (hresult : result ≠ .error .outOfTurns) :
    result = .ok () ∧ fine o'.ends
      ∧ acceptedBy o'.calls = acceptedBy o.calls ++ bytes.toList := by
  -- it settles with success, and this run has not been cut
  obtain ⟨o₁, hsettles, hfine⟩ := writeAll_settles hobliges _ bytes rfl o ho
  obtain ⟨n, hn⟩ := hsettles.reached
  have heq := eq_of_stands (fun turns => writeAll_stands turns o bytes) (n := turns) (m := n)
    (by rw [hw]; exact hresult) (by rw [hn]; simp [Cut])
  rw [hw, hn] at heq
  cases heq
  obtain ⟨more, hcalls, -, -, hall⟩ := writeAll_calls turns o bytes
  rw [hw] at hcalls hall
  dsimp only at hcalls
  refine ⟨rfl, hfine, ?_⟩
  rw [hcalls, acceptedBy_append, hall rfl]

omit [Writer ω] in
/-- Handing on what the session holds leaves it with nothing, and with room. -/
theorem Booked.rewound (h : Booked fine start calls writer s) {writer' : Observed ω}
    (hfine : fine writer'.ends)
    (haccepted : acceptedBy writer'.calls
      = acceptedBy writer.calls ++ s.destination.bytes.data.toList) :
    Booked fine start calls writer' { s with destination := s.destination.rewind } where
  steps := h.steps
  output := by
    rw [h.output, haccepted]
    exact (List.append_nil _).symm
  active := h.active
  capacity_pos := h.capacity_pos
  fine := hfine

omit [Writer ω] in
theorem Booked.isFull_rewind (h : Booked fine start calls writer s) :
    s.destination.rewind.isFull = false :=
  beq_eq_false_iff_ne.mpr (Nat.ne_of_lt h.capacity_pos)

omit [Writer ω] in
/-- The books of a new writer. -/
theorem booked_new (codec : κ) {w : ω} (hfine : fine w) {destinationLength : Nat}
    (hpos : 0 < destinationLength) :
    Booked fine codec [] (.new w) ⟨codec, ⟨.empty, destinationLength⟩, .active⟩ :=
  ⟨.nil, rfl, rfl, hpos, hfine⟩

/-- A flush of the writer behind succeeds, and hands it nothing. -/
theorem Booked.flushed (hobliges : Obliges fine) (h : Booked fine start calls writer s) :
    ∃ writer', Writer.flush writer = (.ok (), writer') ∧ Booked fine start calls writer' s := by
  obtain ⟨w', hflush, hfine⟩ := hobliges.flush h.fine
  refine ⟨_, Observed.flush_of hflush, h.steps, ?_, h.active, h.capacity_pos, hfine⟩
  simpa [EndCall.accepted] using h.output

end Books

/-- Calls behind `calls` that used `taken` make them calls with `P`. -/
def Leads (P : List StepCall → Prop) (calls : List StepCall) (taken : List UInt8) : Prop :=
  ∃ more, P (calls ++ more) ∧ takenBy more = taken

section Leads

variable {P : List StepCall → Prop} {calls : List StepCall} {call : StepCall}

theorem Leads.here (h : P calls) : Leads P calls [] := ⟨[], by rwa [List.append_nil], rfl⟩

theorem Leads.last (h : P (calls ++ [call])) : Leads P calls call.taken :=
  ⟨[call], h, by rw [takenBy_cons, takenBy_nil, List.append_nil]⟩

/-- Calls that used nothing come before the others. -/
theorem Leads.behind {before : List StepCall} {taken : List UInt8}
    (h : Leads P (calls ++ before) taken) (hbefore : takenBy before = []) :
    Leads P calls taken := by
  obtain ⟨more, hmore, htaken⟩ := h
  refine ⟨before ++ more, by rwa [List.append_assoc] at hmore, ?_⟩
  rw [takenBy_append, hbefore, htaken, List.nil_append]

/-- A call that used nothing comes before the others. -/
theorem Leads.after {taken : List UInt8} (h : Leads P (calls ++ [call]) taken)
    (hcall : call.taken = []) : Leads P calls taken :=
  h.behind (by rw [takenBy_cons, hcall, takenBy_nil, List.append_nil])

end Leads

/-- What a write of `input` tells of the calls it made: as much was used as it says, and nothing if
it fails. -/
def TellsTaken (input : Slice) (taken : List UInt8) : Except IoError Nat → Prop
  | .ok n => taken = input.toList.take n ∧ n ≤ input.size ∧ (input.isEmpty = false → n ≠ 0)
  | .error _ => taken = []

/-! ## Compressing writers -/

namespace CompressingWriter

variable {κ ω : Type} [Codec κ] [Writer ω] {fine : ω → Prop} {start : κ} {calls : List StepCall}
  {c c' : CompressingWriter κ (Observed ω)}

/-- The books are in order, and the session has room. -/
structure Roomy (fine : ω → Prop) (start : κ) (c : CompressingWriter κ (Observed ω))
    (calls : List StepCall) : Prop extends Booked fine start calls c.writer c.session where
  /-- The destination is not full. -/
  room : c.session.destination.isFull = false

omit [Writer ω] in
/-- A push is one call, that used what it says. -/
theorem push_booked (input : Slice) (h : Roomy fine start c calls) :
    Ensures (onSession (Session.push input)) c
      (fun p c' => ∃ call : StepCall, Booked fine start (calls ++ [call]) c'.writer c'.session
        ∧ call.taken = input.toList.take p.consumed ∧ p.consumed ≤ input.size
        ∧ p.full = c'.session.destination.isFull)
      (fun _ c' => Leads (Roomy fine start c') calls []) := by
  obtain ⟨writer, session⟩ := c
  obtain ⟨result, session', hpush⟩ : ∃ r s, session.push input = (r, s) := ⟨_, _, rfl⟩
  refine Ensures.intro (fun p c' hw => ?_) (fun x c' hw => ?_)
  all_goals
    simp only [onSession, hpush] at hw
    cases result <;> cases hw
  · exact h.toBooked.pushed hpush
  · obtain ⟨call, hbooked, htaken, hdest⟩ := h.toBooked.push_failed hpush
    exact (Leads.here (P := Roomy fine start ⟨writer, session'⟩)
      ⟨hbooked, by rw [hdest]; exact h.room⟩).after htaken

/-- A drain hands on all that the session holds. -/
theorem drain_booked (hobliges : Obliges fine) (turns : Nat)
    (h : Booked fine start calls c.writer c.session) :
    Ensures (drain turns) c
      (fun n c' => Roomy fine start c' calls ∧ c'.session.destination.bytes = .empty
        ∧ n = c.session.destination.bytes.size)
      (fun x _ => x = .outOfTurns) := by
  obtain ⟨writer, ⟨codec, destination, phase⟩⟩ := c
  obtain rfl : phase = .active := h.active
  obtain ⟨result, writer', hwrite⟩ :
      ∃ result o, writeAll turns writer (.ofBytes destination.bytes) = (result, o) := ⟨_, _, rfl⟩
  have haccepted := writeAll_accepted hobliges h.fine hwrite
  refine Ensures.intro (fun n c' hw => ?_) (fun x c' hw => ?_)
  all_goals
    simp only [drain, bind, EStateM.bind, onSession, Session.drain_active, deliver, hwrite] at hw
    cases result <;> cases hw
  · obtain ⟨-, hfine, hbytes⟩ := haccepted (by simp)
    rw [Slice.toList_ofBytes] at hbytes
    exact ⟨⟨h.rewound hfine hbytes, h.isFull_rewind⟩, rfl, rfl⟩
  · next halt =>
    cases halt with
    | outOfTurns => rfl
    | failed e => cases (haccepted (by simp)).1

/-- **A write** has used as much as it says, and nothing if it fails. -/
theorem writeChunk_booked (hobliges : Obliges fine) (input : Slice) (turns : Nat)
    (h : Roomy fine start c calls) :
    Ensures (writeChunk input turns) c
      (fun n c' => Leads (Roomy fine start c') calls (input.toList.take n)
        ∧ n ≤ input.size ∧ (input.isEmpty = false → n ≠ 0))
      (fun x c' => x ≠ .outOfTurns → Leads (Roomy fine start c') calls []) := by
  -- every turn but the last makes a call that uses nothing
  refine writeTurns_ensures (I := fun c' => Leads (Roomy fine start c') calls [])
    (J := fun p c' => ∃ more, Booked fine start (calls ++ more) c'.writer c'.session
      ∧ takenBy more = input.toList.take p.consumed ∧ p.consumed ≤ input.size
      ∧ p.full = c'.session.destination.isFull)
    (R := fun p c' => Leads (Roomy fine start c') calls (input.toList.take p.consumed)
      ∧ p.consumed ≤ input.size)
    (fun _ _ hx => absurd rfl hx) ?_ ?_ ?_ ?_ ?_ ?_ turns c (Leads.here h)
  · rintro c₁ ⟨before, h₁, hbefore⟩
    refine (push_booked input h₁).mono ?_ (fun _ _ hleads _ => hleads.behind hbefore)
    rintro p c₂ ⟨call, h₂, htaken, hle, hfull⟩
    rw [List.append_assoc] at h₂
    refine ⟨before ++ [call], h₂, ?_, hle, hfull⟩
    rw [takenBy_append, hbefore, takenBy_cons, htaken, takenBy_nil, List.append_nil,
      List.nil_append]
  · rintro turns p c₁ ⟨more, h₁, htaken, hle, hfull⟩ hp
    refine (drain_booked hobliges turns h₁).mono ?_ (fun _ _ hx hne => absurd hx hne)
    rintro n c₂ ⟨h₂, -, hn⟩
    refine ⟨fun hzero => ?_, fun _ => ⟨⟨more, h₂, htaken⟩, hle⟩⟩
    -- a full destination holds something
    have hsize : c₁.session.destination.bytes.size = c₁.session.destination.capacity :=
      beq_iff_eq.mp (hfull.symm.trans hp)
    have hpos := h₁.capacity_pos
    omega
  · rintro p c₁ ⟨more, h₁, htaken, hle, hfull⟩ hp
    exact ⟨⟨more, ⟨h₁, hfull.symm.trans hp⟩, htaken⟩, hle⟩
  · rintro p c₁ ⟨hleads, hle⟩ hsome
    exact ⟨hleads, hle, fun hne => hsome.resolve_right (by rw [hne]; simp)⟩
  · rintro p c₁ ⟨hleads, -⟩ hzero -
    rwa [hzero, List.take_zero] at hleads
  · rintro p c₁ ⟨hleads, -⟩ hzero - - -
    rwa [hzero, List.take_zero] at hleads

omit [Writer ω] in
/-- A request to flush is one call, that used nothing. -/
theorem flush_booked (h : Roomy fine start c calls) :
    Ensures (onSession Session.flush) c
      (fun more c' => ∃ call : StepCall, Booked fine start (calls ++ [call]) c'.writer c'.session
        ∧ call.taken = [] ∧ call.directive = .flush ∧ (more = false → call.isDone = true))
      (fun _ c' => Leads (Roomy fine start c') calls []) := by
  obtain ⟨writer, session⟩ := c
  obtain ⟨result, session', hstep⟩ : ∃ r s, session.step .empty .flush = (r, s) := ⟨_, _, rfl⟩
  have hbooked := h.toBooked.step hstep
  refine Ensures.intro (fun more c' hw => ?_) (fun x c' hw => ?_)
  all_goals
    simp only [onSession, Session.flush, hstep] at hw
    cases result <;> cases hw
  · next st =>
    refine ⟨_, hbooked, StepCall.taken_of_size rfl, rfl, fun hmore => ?_⟩
    cases hs : st.completion with
    | done => exact StepCall.isDone_of_done hs
    | pending => rw [hs] at hmore; cases hmore
  · have hdest := Session.destination_of_step_error hstep
    exact (Leads.here (P := Roomy fine start ⟨writer, session'⟩)
      ⟨hbooked, by rw [hdest]; exact h.room⟩).after rfl

/-- Calls behind `calls` that used nothing, the last of which was a flush that was done, lead to a
session that holds nothing. -/
def FlushedOut (fine : ω → Prop) (start : κ) (calls : List StepCall)
    (c : CompressingWriter κ (Observed ω)) : Prop :=
  ∃ before last, Roomy fine start c (calls ++ (before ++ [last]))
    ∧ c.session.destination.bytes = .empty ∧ takenBy (before ++ [last]) = []
    ∧ last.directive = .flush ∧ last.isDone = true

/-- **A flush** ends with a call that was done, and leaves nothing in the session. -/
theorem flushFrame_booked (hobliges : Obliges fine) (turns : Nat) (h : Roomy fine start c calls) :
    Ensures (flushFrame turns) c (fun _ c' => FlushedOut fine start calls c')
      (fun x c' => x ≠ .outOfTurns → Leads (Roomy fine start c') calls []) := by
  refine Ensures.bind (R := fun _ c' => FlushedOut fine start calls c') ?_ ?_
  · -- the request says whether it was done, and the drain that follows makes no call
    refine drainWhile_ensures (I := fun c' => Leads (Roomy fine start c') calls [])
      (J := fun more c' => ∃ before call, Booked fine start (calls ++ (before ++ [call])) c'.writer
          c'.session ∧ takenBy (before ++ [call]) = [] ∧ call.directive = .flush
        ∧ (more = false → call.isDone = true))
      (fun _ _ hx => absurd rfl hx) ?_ ?_ turns c (Leads.here h)
    · rintro c₁ ⟨before, h₁, htaken₁⟩
      refine (flush_booked h₁).mono ?_ ?_
      · rintro more c₂ ⟨call, h₂, htaken, hdirective, hdone⟩
        rw [List.append_assoc] at h₂
        refine ⟨before, call, h₂, ?_, hdirective, hdone⟩
        rw [takenBy_append, htaken₁, takenBy_cons, htaken, takenBy_nil, List.append_nil,
          List.append_nil]
      · exact fun _ _ hleads _ => hleads.behind htaken₁
    · rintro turns more c₁ ⟨before, call, h₁, htaken, hdirective, hdone⟩
      refine (drain_booked hobliges turns h₁).mono ?_ (fun _ _ hx hne => absurd hx hne)
      rintro n c₂ ⟨h₂, hnothing, -⟩
      cases more with
      | true => exact ⟨before ++ [call], h₂, htaken⟩
      | false => exact ⟨before, call, h₂, hnothing, htaken, hdirective, hdone rfl⟩
  · rintro _ c₁ ⟨before, call, h₁, hnothing, hcall⟩
    obtain ⟨writer', hflush, hbooked⟩ := h₁.toBooked.flushed hobliges
    obtain ⟨writer, session⟩ := c₁
    refine Ensures.intro (fun _ c' hw => ?_) (fun _ c' hw => ?_)
    all_goals
      simp only [flushWriter, hflush] at hw
      cases hw
    exact ⟨before, call, ⟨hbooked, h₁.room⟩, hnothing, hcall⟩

/-- A write that comes to its end tells what was used. -/
theorem write_booked (hobliges : Obliges fine) (h : Roomy fine start c calls) {turns : Nat}
    {input : Slice} {answer : Except IoError Nat}
    (hw : c.write turns input = (answered answer, c')) :
    ∃ taken, Leads (Roomy fine start c') calls taken ∧ TellsTaken input taken answer := by
  have hchunk := writeChunk_booked hobliges input turns h
  unfold write outcome at hw
  split at hw
  · next hwork =>
    obtain ⟨hleads, hle, hpos⟩ := hchunk.of_ok hwork
    cases answer <;> cases hw
    exact ⟨_, hleads, rfl, hle, hpos⟩
  · next x _ hwork =>
    have hleads := hchunk.of_error hwork
    cases answer <;> cases x <;> cases hw
    exact ⟨_, hleads (by simp), rfl⟩

/-- A flush that comes to its end has used nothing. -/
theorem flush_leads (hobliges : Obliges fine) (h : Roomy fine start c calls) {turns : Nat}
    {answer : Except IoError Unit} (hw : c.flush turns = (answered answer, c')) :
    Leads (Roomy fine start c') calls []
      ∧ (answer = .ok () → FlushedOut fine start calls c') := by
  have hframe := flushFrame_booked hobliges turns h
  unfold flush outcome at hw
  split at hw
  · next hwork =>
    have hflushed := hframe.of_ok hwork
    cases answer <;> cases hw
    refine ⟨?_, fun _ => hflushed⟩
    obtain ⟨before, last, hroomy, -, htaken, -⟩ := hflushed
    exact ⟨_, hroomy, htaken⟩
  · next x _ hwork =>
    have hleads := hframe.of_error hwork
    cases answer <;> cases x <;> cases hw
    exact ⟨hleads (by simp), fun hok => by cases hok⟩

/-- **Whatever is asked of a writer**, its books stay in order. -/
theorem serve_booked (hobliges : Obliges fine) (h : Roomy fine start c calls) {turns : Nat}
    {request : Request} {answer : Except IoError Reply}
    (hw : serve turns request c = (answered answer, c')) :
    ∃ calls', Roomy fine start c' calls' := by
  cases request with
  | write part =>
      obtain ⟨result, c₁, hwrite⟩ : ∃ r c₁, c.write turns part = (r, c₁) := ⟨_, _, rfl⟩
      simp only [serve, hwrite] at hw
      obtain ⟨hresult, rfl⟩ := Prod.mk.inj hw
      obtain ⟨told, rfl⟩ := exists_answered_of_map hresult
      obtain ⟨_, ⟨more, hroomy, -⟩, -⟩ := write_booked hobliges h hwrite
      exact ⟨_, hroomy⟩
  | flush =>
      obtain ⟨result, c₁, hflush⟩ : ∃ r c₁, c.flush turns = (r, c₁) := ⟨_, _, rfl⟩
      simp only [serve, hflush] at hw
      obtain ⟨hresult, rfl⟩ := Prod.mk.inj hw
      obtain ⟨told, rfl⟩ := exists_answered_of_map hresult
      obtain ⟨⟨more, hroomy, -⟩, -⟩ := flush_leads hobliges h hflush
      exact ⟨_, hroomy⟩

end CompressingWriter

/-! ## Decompressing writers -/

namespace DecompressingWriter

variable {κ ω : Type} [Codec κ] [Writer ω] {fine : ω → Prop} {start : κ} {calls : List StepCall}
  {d d' : DecompressingWriter κ (Observed ω)}

/-- The books are in order, and the session holds nothing. -/
structure Handed (fine : ω → Prop) (start : κ) (d : DecompressingWriter κ (Observed ω))
    (calls : List StepCall) : Prop extends Booked fine start calls d.writer d.session where
  /-- All that was put out has been handed on. -/
  nothing : d.session.destination.bytes = .empty

omit [Writer ω] in
theorem Handed.isFull (h : Handed fine start d calls) : d.session.destination.isFull = false := by
  rw [DestinationBuffer.isFull, h.nothing]
  exact beq_eq_false_iff_ne.mpr (Nat.ne_of_lt h.capacity_pos)

/-- **A push** hands on what it puts out, and is one call. -/
theorem pushThrough_booked (hobliges : Obliges fine) (turns : Nat) (input : Slice)
    (h : Handed fine start d calls) :
    Ensures (pushThrough turns input) d
      (fun p d' => ∃ call : StepCall, Handed fine start d' (calls ++ [call])
        ∧ call.taken = input.toList.take p.consumed ∧ p.consumed ≤ input.size)
      (fun x d' => x ≠ .outOfTurns → Leads (Handed fine start d') calls []) := by
  obtain ⟨writer, session⟩ := d
  obtain ⟨pushed, session₁, hpush⟩ : ∃ r s, session.push input = (r, s) := ⟨_, _, rfl⟩
  cases pushed with
  | error e =>
      obtain ⟨call, hbooked, htaken, hdest⟩ := h.toBooked.push_failed hpush
      refine Ensures.intro (fun p d' hw => ?_) (fun x d' hw _ => ?_)
      all_goals
        simp only [pushThrough, bind, EStateM.bind, onSession, hpush] at hw
        cases hw
      exact (Leads.here (P := Handed fine start ⟨writer, session₁⟩)
        ⟨hbooked, by rw [hdest]; exact h.nothing⟩).after htaken
  | ok p =>
      obtain ⟨call, hbooked, htaken, hle, -⟩ := h.toBooked.pushed hpush
      obtain ⟨codec, destination, phase⟩ := session₁
      obtain rfl : phase = .active := hbooked.active
      obtain ⟨result, writer', hwrite⟩ :
          ∃ result o, writeAll turns writer (.ofBytes destination.bytes) = (result, o) :=
        ⟨_, _, rfl⟩
      have haccepted := writeAll_accepted hobliges h.fine hwrite
      refine Ensures.intro (fun p d' hw => ?_) (fun x d' hw hx => ?_)
      all_goals
        simp only [pushThrough, bind, EStateM.bind, onSession, hpush, Session.drain_active,
          hwrite] at hw
        cases result <;> cases hw
      · obtain ⟨-, hfine, hbytes⟩ := haccepted (by simp)
        rw [Slice.toList_ofBytes] at hbytes
        exact ⟨call, ⟨hbooked.rewound hfine hbytes, rfl⟩, htaken, hle⟩
      · next halt =>
        cases halt with
        | outOfTurns => exact absurd rfl hx
        | failed e => cases (haccepted (by simp)).1

/-- **A write** has used as much as it says, and nothing if it fails. -/
theorem writeChunk_booked (hobliges : Obliges fine) (input : Slice) (turns : Nat)
    (h : Handed fine start d calls) :
    Ensures (writeChunk input turns) d
      (fun n d' => Leads (Handed fine start d') calls (input.toList.take n)
        ∧ n ≤ input.size ∧ (input.isEmpty = false → n ≠ 0))
      (fun x d' => x ≠ .outOfTurns → Leads (Handed fine start d') calls []) := by
  refine writeTurns_ensures (I := fun d' => Leads (Handed fine start d') calls [])
    (J := fun p d' => Leads (Handed fine start d') calls (input.toList.take p.consumed)
      ∧ p.consumed ≤ input.size)
    (fun _ _ hx => absurd rfl hx) ?_ ?_ ?_ ?_ turns d (Leads.here h)
  · rintro turns d₁ ⟨before, h₁, hbefore⟩
    refine (pushThrough_booked hobliges turns input h₁).mono ?_
      (fun _ _ hleads hx => (hleads hx).behind hbefore)
    rintro p d₂ ⟨call, h₂, htaken, hle⟩
    exact ⟨(htaken ▸ Leads.last h₂).behind hbefore, hle⟩
  · rintro p d₁ ⟨hleads, hle⟩ hsome
    exact ⟨hleads, hle, fun hne => hsome.resolve_right (by rw [hne]; simp)⟩
  · rintro p d₁ ⟨hleads, -⟩ hzero -
    rwa [hzero, List.take_zero] at hleads
  · rintro p d₁ ⟨hleads, -⟩ hzero -
    rwa [hzero, List.take_zero] at hleads

/-- A write that comes to its end tells what was used. -/
theorem write_booked (hobliges : Obliges fine) (h : Handed fine start d calls) {turns : Nat}
    {input : Slice} {answer : Except IoError Nat}
    (hw : d.write turns input = (answered answer, d')) :
    ∃ taken, Leads (Handed fine start d') calls taken ∧ TellsTaken input taken answer := by
  have hchunk := writeChunk_booked hobliges input turns h
  unfold write at hw
  split at hw
  · next hwork =>
    obtain ⟨hleads, hle, hpos⟩ := hchunk.of_ok hwork
    cases answer <;> cases hw
    exact ⟨_, hleads, rfl, hle, hpos⟩
  · next x _ hwork =>
    have hleads := hchunk.of_error hwork
    cases answer <;> cases x <;> cases hw
    exact ⟨_, hleads (by simp), rfl⟩

/-- **Whatever is asked of a writer**, its books stay in order. -/
theorem serve_booked (hobliges : Obliges fine) (h : Handed fine start d calls) {turns : Nat}
    {request : Request} {answer : Except IoError Reply}
    (hw : serve turns request d = (answered answer, d')) :
    ∃ calls', Handed fine start d' calls' := by
  cases request with
  | write part =>
      obtain ⟨result, d₁, hwrite⟩ : ∃ r d₁, d.write turns part = (r, d₁) := ⟨_, _, rfl⟩
      simp only [serve, hwrite] at hw
      obtain ⟨hresult, rfl⟩ := Prod.mk.inj hw
      obtain ⟨told, rfl⟩ := exists_answered_of_map hresult
      obtain ⟨_, ⟨more, hhanded, -⟩, -⟩ := write_booked hobliges h hwrite
      exact ⟨_, hhanded⟩
  | flush =>
      obtain ⟨writer', hflush, hbooked⟩ := h.toBooked.flushed hobliges
      obtain ⟨writer, session⟩ := d
      simp only [serve, flush, hflush] at hw
      obtain ⟨-, rfl⟩ := Prod.mk.inj hw
      exact ⟨calls, hbooked, h.nothing⟩

end DecompressingWriter

/-! ## The books after any calls -/

/-- What was accepted, and what is held, is what was put out, and there is room for more. -/
structure Reconciled (record : List StepCall) (ends : List EndCall) (held : DestinationBuffer) :
    Prop where
  /-- What was put out has been accepted, or is held. -/
  output : givenBy record = acceptedBy ends ++ held.bytes.data.toList
  /-- There is room for more. -/
  room : held.isFull = false

/-- **Writers keep their books.** Take any codec, whose steps may fail, a destination of any length,
and a writer behind that does not fail, though it may take as little as one byte at a time. After
any writes and flushes, whatever came of them, what the writer behind has accepted followed by what
the session holds is what the codec has put out, and the session has room; a decompressing writer
holds nothing. A write that says it took `n` bytes has used just the first `n` bytes of its input,
and at least one if there is any; one that fails has used nothing. A flush of a compressing writer
that succeeds has ended with a step that was done, and leaves nothing in the session. -/
theorem writers_keep_books {κ ω : Type} [Codec κ] [Writer ω] (memory : Memory) (writer : ω)
    (hwriter : Accepts writer) (log log' : Log) :
    (∀ (make : CompressorOptions → Except Error κ) (o : CompressorOptions)
        (first c : CompressingWriter (Recorded κ) (Observed ω))
        (said : List (Request × Except IoError Reply)),
      CompressingWriter.create memory (tracing make) o (Observed.new writer) log
        = (.ok first, log') →
      Dialogue CompressingWriter.serve first said c →
      Reconciled c.session.codec.record c.writer.calls c.session.destination
        ∧ (∀ turns input answer c', c.write turns input = (answered answer, c') →
          ∃ more, c'.session.codec.record = c.session.codec.record ++ more
            ∧ TellsTaken input (takenBy more) answer)
        ∧ ∀ turns c', c.flush turns = (.ok (), c') →
          c'.session.destination.bytes = .empty
            ∧ ∃ more last, c'.session.codec.record = c.session.codec.record ++ more ++ [last]
              ∧ last.directive = .flush ∧ last.isDone = true)
    ∧ ∀ (make : DecompressorOptions → Except Error κ) (o : DecompressorOptions)
        (first d : DecompressingWriter (Framed (Recorded κ)) (Observed ω))
        (said : List (Request × Except IoError Reply)),
      DecompressingWriter.create memory (recording make) o (Observed.new writer) log
        = (.ok first, log') →
      Dialogue DecompressingWriter.serve first said d →
      Reconciled d.session.codec.record d.writer.calls d.session.destination
        ∧ d.session.destination.bytes = .empty
        ∧ ∀ turns input answer d', d.write turns input = (answered answer, d') →
          ∃ more, d'.session.codec.record = d.session.codec.record ++ more
            ∧ TellsTaken input (takenBy more) answer := by
  obtain ⟨fine, hobliges, hfine⟩ := hwriter
  refine ⟨fun make o first c said hfirst hsaid => ?_, fun make o first d said hfirst hsaid => ?_⟩
  · obtain ⟨start, hmake, rfl⟩ := CompressingWriter.create_ok hfirst
    obtain ⟨calls, hc⟩ := hsaid.keeps
      (I := fun c => ∃ calls, CompressingWriter.Roomy fine start c calls)
      (fun ⟨_, h⟩ hw => CompressingWriter.serve_booked hobliges h hw)
      ⟨[], booked_new start hfine o.destinationLength_pos,
        (booked_new start hfine o.destinationLength_pos).isFull_rewind⟩
    rw [hc.steps.record_eq hmake]
    refine ⟨⟨hc.output, hc.room⟩, fun turns input answer c' hw => ?_, fun turns c' hw => ?_⟩
    · obtain ⟨_, ⟨more, h', rfl⟩, htold⟩ := CompressingWriter.write_booked hobliges hc hw
      exact ⟨more, h'.steps.record_eq hmake, htold⟩
    · obtain ⟨before, last, h', hnothing, -, hlast⟩ :=
        (CompressingWriter.flush_leads hobliges hc (show _ = (answered (.ok ()), _) from hw)).2 rfl
      refine ⟨hnothing, before, last, ?_, hlast⟩
      rw [h'.steps.record_eq hmake, List.append_assoc]
  · obtain ⟨start, hmake, rfl⟩ := DecompressingWriter.create_ok hfirst
    obtain ⟨calls, hd⟩ := hsaid.keeps
      (I := fun d => ∃ calls, DecompressingWriter.Handed fine start d calls)
      (fun ⟨_, h⟩ hw => DecompressingWriter.serve_booked hobliges h hw)
      ⟨[], booked_new start hfine o.destinationLength_pos, rfl⟩
    rw [hd.steps.framed_record_eq hmake]
    refine ⟨⟨hd.output, hd.isFull⟩, hd.nothing, fun turns input answer d' hw => ?_⟩
    obtain ⟨_, ⟨more, h', rfl⟩, htold⟩ := DecompressingWriter.write_booked hobliges hd hw
    exact ⟨more, h'.steps.framed_record_eq hmake, htold⟩

/-! ### A writer that takes its time -/

/-- A scripted writer does not fail if its script has only short writes and interruptions. -/
theorem accepts_scripted {w : ScriptedWriter}
    (hwrites : ∀ event ∈ w.writes, (∃ n, event = .ok (n + 1))
      ∨ ∃ e : IoError, event = .error e ∧ e.kind = .interrupted)
    (hflushes : ∀ event ∈ w.flushes, event = .ok ()) : Accepts w := by
  refine ⟨fun w => (∀ event ∈ w.writes, (∃ n, event = .ok (n + 1))
      ∨ ∃ e : IoError, event = .error e ∧ e.kind = .interrupted)
    ∧ ∀ event ∈ w.flushes, event = .ok (), ⟨?_, ?_⟩, hwrites, hflushes⟩
  · rintro ⟨bytes, writes, flushes, calls⟩ s ⟨hwrites, hflushes⟩ hs
    have hpos := size_pos_of_isEmpty hs
    -- on the script: an interruption takes one event and leaves the rest of it
    induction writes generalizing calls with
    | nil =>
        have hmin : min s.size s.size = s.size := Nat.min_self _
        exact .some (n := min s.size s.size) rfl (by omega) ⟨hwrites, hflushes⟩
    | cons event writes ih =>
        obtain ⟨hevent, hrest⟩ := List.forall_mem_cons.mp hwrites
        rcases hevent with ⟨n, rfl⟩ | ⟨e, rfl, he⟩
        · exact .some (n := min (n + 1) s.size) rfl (by omega) ⟨hrest, hflushes⟩
        · exact .interrupted rfl he (ih _ hrest hflushes)
  · rintro ⟨bytes, writes, flushes, calls⟩ ⟨hwrites, hflushes⟩
    cases flushes with
    | nil => exact ⟨_, rfl, hwrites, hflushes⟩
    | cons event flushes =>
        obtain ⟨rfl, hrest⟩ := List.forall_mem_cons.mp hflushes
        exact ⟨_, rfl, hwrites, hrest⟩

namespace Hesitant

/-- A writer that takes one byte, is interrupted, and then takes one byte and everything. -/
def target : ScriptedWriter :=
  ⟨.empty, [.ok 1, .error (.plain .interrupted "again"), .ok 1], [], #[]⟩

theorem accepts : Accepts target := by
  refine accepts_scripted ?_ (by simp [target])
  simp [target, IoError.kind]

/-- A codec that fails once, fills its room, and has one byte more when it is flushed. -/
def codec : ScriptedCodec :=
  ⟨[.fail .corruptedSource, .act 2 ⟨#[5, 6]⟩ .pending, .act 0 ⟨#[7]⟩ .done]⟩

def source : Slice := .ofBytes ⟨#[1, 2, 3]⟩

def compressor : CompressingWriter (Recorded ScriptedCodec) (Observed ScriptedWriter) :=
  ⟨.new target, ⟨⟨codec, #[]⟩, ⟨.empty, 2⟩, .active⟩⟩

def decompressor :
    DecompressingWriter (Framed (Recorded ScriptedCodec)) (Observed ScriptedWriter) :=
  ⟨.new target, ⟨{ codec := ⟨codec, #[]⟩ }, ⟨.empty, 2⟩, .active⟩⟩

/-- The first write fails; the second one is made again, and takes two bytes. -/
def said : List (Request × Except IoError Reply) :=
  [(.write source, .error (Error.toIoError .corruptedSource)), (.write source, .ok (.took 2))]

def compressed : CompressingWriter (Recorded ScriptedCodec) (Observed ScriptedWriter) :=
  ((compressor.write 9 source).2.write 9 source).2

def decompressed :
    DecompressingWriter (Framed (Recorded ScriptedCodec)) (Observed ScriptedWriter) :=
  ((decompressor.write 9 source).2.write 9 source).2

theorem compressor_said : Dialogue CompressingWriter.serve compressor said compressed :=
  .snoc (.snoc .nil 9 rfl) 9 rfl

theorem decompressor_said : Dialogue DecompressingWriter.serve decompressor said decompressed :=
  .snoc (.snoc .nil 9 rfl) 9 rfl

end Hesitant

/-- The write that failed is made again; what was put out is accepted byte by byte, and a flush
hands on the rest. -/
theorem writers_keep_books_of_hesitant :
    Accepts Hesitant.target
      ∧ Reconciled Hesitant.compressed.session.codec.record Hesitant.compressed.writer.calls
        Hesitant.compressed.session.destination
      ∧ givenBy Hesitant.compressed.session.codec.record = [5, 6]
      ∧ (Hesitant.compressed.flush 9).2.session.destination.bytes = .empty
      ∧ acceptedBy (Hesitant.compressed.flush 9).2.writer.calls = [5, 6, 7]
      ∧ Reconciled Hesitant.decompressed.session.codec.record Hesitant.decompressed.writer.calls
        Hesitant.decompressed.session.destination
      ∧ Hesitant.decompressed.session.destination.bytes = .empty := by
  obtain ⟨hcompress, hdecompress⟩ := writers_keep_books (κ := ScriptedCodec) .machine
    Hesitant.target Hesitant.accepts #[] #[]
  obtain ⟨hc, -, hflush⟩ := hcompress (fun _ => .ok Hesitant.codec)
    { destinationBufferLength := 2 } Hesitant.compressor Hesitant.compressed _ rfl
    Hesitant.compressor_said
  obtain ⟨hd, hnothing, -⟩ := hdecompress (fun _ => .ok Hesitant.codec)
    { destinationBufferLength := 2 } Hesitant.decompressor Hesitant.decompressed _ rfl
    Hesitant.decompressor_said
  exact ⟨Hesitant.accepts, hc, rfl, (hflush 9 _ rfl).1, rfl, hd, hnothing⟩

end Zstandard
