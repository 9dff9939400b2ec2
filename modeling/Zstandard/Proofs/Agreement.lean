import Zstandard.Proofs.Passages

/-!
# All ways to decompress agree

What a source decodes to is a fact about the codec: it is the output of calls that take all of the
source and leave nothing to come (`DecodesTo`). A codec is regular on a source if there is only one
such output and the calls on the way to it neither fail nor put out anything else (`Regular`). Then
every passage that brings the source comes to that output, or reports that a frame is still open.
-/

namespace Zstandard

/-- The codec that `make` makes, outside of a frame. -/
def framing {κ ο : Type} (make : ο → Except Error κ) (o : ο) : Except Error (Framed κ) :=
  (make o).map fun codec => { codec }

/-- `source` decodes to `given`, and leaves a frame open or not. -/
def DecodesTo {κ : Type} [Codec κ] (start : Framed κ) (source given : List UInt8) (isOpen : Bool) :
    Prop :=
  ∃ codec, Decodes start source given codec ∧ codec.inFrame = isOpen

/-- If `source` decodes to something, nothing else comes of it, however it is fed. -/
structure Regular {κ : Type} [Codec κ] (start : Framed κ) (source : List UInt8) : Prop where
  /-- No call that feeds it fails. -/
  succeeds : ∀ {given : List UInt8} {isOpen : Bool}, DecodesTo start source given isOpen →
    ∀ {calls : List StepCall} {codec : Framed κ} {input : Slice} {room : Nat},
    Feeding start source calls codec → 0 < room → takenBy calls ++ input.toList <+: source →
    ∃ s codec', Codec.step codec input room .feed = (.ok s, codec')
  /-- All calls that feed it put out a beginning of what it decodes to. -/
  given_prefix : ∀ {given : List UInt8} {isOpen : Bool}, DecodesTo start source given isOpen →
    ∀ {calls : List StepCall} {codec : Framed κ}, Feeding start source calls codec →
    givenBy calls <+: given
  /-- It decodes to nothing else. -/
  unique : ∀ {given given' : List UInt8} {isOpen isOpen' : Bool},
    DecodesTo start source given isOpen → DecodesTo start source given' isOpen' →
    given' = given ∧ isOpen' = isOpen
  /-- A call that has input and leaves room uses something. -/
  progress : ∀ {calls : List StepCall} {codec codec' : Framed κ} {input : Slice} {room : Nat}
    {s : Step}, Feeding start source calls codec → takenBy calls ++ input.toList <+: source →
    Codec.step codec input room .feed = (.ok s, codec') → input.size ≠ 0 →
    s.produced.size < room → s.consumed ≠ 0

section Regular

variable {κ : Type} [Codec κ] {start : Framed κ} {source given : List UInt8} {isOpen : Bool}

/-- What decodes to something is digested. -/
theorem Regular.digests (h : Regular start source) (hd : DecodesTo start source given isOpen) :
    Digests start source given.length where
  succeeds := h.succeeds hd
  progress := h.progress
  bounded hfeeding := (h.given_prefix hd hfeeding).length_le

end Regular

/-- The end of the input is refused where a frame is open, and only there. -/
theorem Framed.endOfInput_ok {κ : Type} [Codec κ] {f : Framed κ}
    (h : Codec.endOfInput f = .ok ()) : f.inFrame = false := by
  have h' : f.endOfInput = .ok () := h
  unfold endOfInput at h'
  split at h'
  · cases h'
  · next hopen => simpa using hopen

theorem Framed.endOfInput_error {κ : Type} [Codec κ] {f : Framed κ} {e : Error}
    (h : Codec.endOfInput f = .error e) : f.inFrame = true ∧ e = .corruptedSource := by
  have h' : f.endOfInput = .error e := h
  unfold endOfInput at h'
  split at h'
  · next hopen =>
    cases h'
    exact ⟨hopen, rfl⟩
  · cases h'

/-- That refusal is not the failure of an end. -/
theorem Framed.ioCause_of_endOfInput {κ : Type} [Codec κ] (f : Framed κ) (e : Error)
    (h : Codec.endOfInput f = .error e) : e.ioCause? = none := by
  rw [(endOfInput_error h).2]
  rfl

namespace Passage

variable {κ : Type} [Codec κ] {make : DecompressorOptions → Except Error κ} {memory : Memory}
  {o : DecompressorOptions} {log : Log} {c : κ} {source : List UInt8}

omit [Codec κ] in
theorem framing_eq (hmake : make o = .ok c) : framing make o = .ok { codec := c } := by
  unfold framing
  rw [hmake]
  rfl

/-- A success decodes the source, and leaves no frame open. -/
theorem decodesTo_of_ok (hmake : make o = .ok c) (p : Passage) (hp : p.Brings source) {turns : Nat}
    {x : List UInt8} (h : p.decompress memory (framing make) o log turns = .ok x) :
    DecodesTo { codec := c } source x false := by
  obtain ⟨start, codec, hstart, hdecodes, hend⟩ := decompress_ok p hp h
  rw [framing_eq hmake, Except.ok.injEq] at hstart
  subst hstart
  exact ⟨codec, hdecodes, Framed.endOfInput_ok hend⟩

/-- **Every passage comes to what the source decodes to**, or reports the frame that is open. -/
theorem settles_of_decodesTo (ho : o.validate = .ok ()) (hmake : make o = .ok c)
    (hregular : Regular { codec := c } source) (p : Passage) (hp : p.Brings source)
    {x : List UInt8} {isOpen : Bool} (hx : DecodesTo { codec := c } source x isOpen)
    (hmemory : p.Granted memory o.sourceLength o.destinationLength x.length) :
    Settles (p.decompress memory (framing make) o log)
      (if isOpen then .error (.failed .corruptedSource) else .ok x) := by
  -- the passage comes to some end; that there is only one output makes it this one
  rcases decompress_settles (hregular.digests hx) Framed.ioCause_of_endOfInput ho
    (framing_eq hmake) p hp hmemory log with
    ⟨y, hsettles⟩ | ⟨e, hsettles, given, codec, hdecodes, he⟩
  · obtain ⟨turns, hturns⟩ := hsettles.reached
    obtain ⟨rfl, rfl⟩ := hregular.unique hx (decodesTo_of_ok hmake p hp hturns)
    exact hsettles
  · obtain ⟨hopen, rfl⟩ := Framed.endOfInput_error he
    obtain ⟨rfl, rfl⟩ := hregular.unique hx ⟨codec, hdecodes, hopen⟩
    exact hsettles

end Passage

/-- **All ways to decompress agree.** Let a codec be regular on a source. A passage that brings the
source and is granted what it asks memory for, with valid options that make that codec, succeeds
with some output exactly if the source decodes to it and leaves no frame open, and then every other
such passage comes to that output too. If the source leaves a frame open, every passage comes to the
same failure. -/
theorem decompressors_agree {κ : Type} [Codec κ] (make : DecompressorOptions → Except Error κ)
    (c : κ) (source : List UInt8) (hregular : Regular { codec := c } source)
    (o : DecompressorOptions) (ho : o.validate = .ok ()) (hmake : make o = .ok c)
    (memory : Memory) (p : Passage) (hp : p.Brings source)
    (hmemory : ∀ x isOpen, DecodesTo { codec := c } source x isOpen →
      p.Granted memory o.sourceLength o.destinationLength x.length) (log : Log) :
    (∀ x, (∃ turns, p.decompress memory (framing make) o log turns = .ok x)
      ↔ DecodesTo { codec := c } source x false)
    ∧ (∀ x, DecodesTo { codec := c } source x false →
      Settles (p.decompress memory (framing make) o log) (.ok x))
    ∧ (∀ x, DecodesTo { codec := c } source x true →
      Settles (p.decompress memory (framing make) o log) (.error (.failed .corruptedSource)))
    ∧ ∀ (o' : DecompressorOptions) (memory' : Memory) (p' : Passage) (log' : Log) (turns : Nat)
      (x : List UInt8), o'.validate = .ok () → make o' = .ok c → p'.Brings source →
      p'.Granted memory' o'.sourceLength o'.destinationLength x.length →
      p.decompress memory (framing make) o log turns = .ok x →
      Settles (p'.decompress memory' (framing make) o' log') (.ok x) := by
  have hclosed : ∀ x, DecodesTo { codec := c } source x false →
      Settles (p.decompress memory (framing make) o log) (.ok x) := fun x hx => by
    simpa using Passage.settles_of_decodesTo ho hmake hregular p hp hx (hmemory x false hx)
  refine ⟨fun x => ⟨?_, fun hx => (hclosed x hx).reached⟩, hclosed, fun x hx => ?_, ?_⟩
  · rintro ⟨turns, hturns⟩
    exact Passage.decodesTo_of_ok hmake p hp hturns
  · simpa using Passage.settles_of_decodesTo ho hmake hregular p hp hx (hmemory x true hx)
  · intro o' memory' p' log' turns x ho' hmake' hp' hmemory' hturns
    have hx := Passage.decodesTo_of_ok hmake p hp hturns
    simpa using Passage.settles_of_decodesTo ho' hmake' hregular p' hp' hx hmemory'

/-! ### A codec that copies -/

/-- A codec that puts out what it is given, and reports the same of each step. -/
structure Echo where
  completion : Completion

namespace Echo

def step (e : Echo) (input : Slice) (room : Nat) (_ : Directive) : Except Error Step × Echo :=
  (.ok ⟨(input.take room).size, (input.take room).toBytes, e.completion⟩, e)

theorem size_toBytes (s : Slice) : s.toBytes.size = s.size := s.length_toList

instance : Codec Echo where
  step := step
  endOfInput _ := .ok ()
  consumed_le {_ _ input room _ s} h := by
    cases h
    simp only [Slice.size_take]
    omega
  produced_le {_ _ input room _ s} h := by
    cases h
    simp only [size_toBytes, Slice.size_take]
    omega

variable {completion : Completion} {source : List UInt8} {calls : List StepCall}
  {f : Framed Echo} {input : Slice} {room : Nat}

/-- The call was answered with what it was given. -/
def Answers (completion : Completion) (c : StepCall) : Prop :=
  c.result = .ok ⟨(c.input.take c.room).size, (c.input.take c.room).toBytes, completion⟩

theorem Answers.given_eq {c : StepCall} (h : Answers completion c) : c.given = c.taken := by
  unfold StepCall.given StepCall.taken
  rw [show c.result = _ from h]
  show (c.input.take c.room).toList = c.input.toList.take (c.input.take c.room).size
  rw [Slice.toList_take, Slice.size_take, ← Slice.length_toList, List.take_eq_take_min]

theorem Answers.isDone_eq {c : StepCall} (h : Answers completion c) :
    c.isDone = (completion == .done) := by
  unfold StepCall.isDone
  rw [show c.result = _ from h]

/-- An echo stays as it is and answers every call. -/
theorem answers {e : Echo} (h : Steps (⟨completion⟩ : Echo) calls e) :
    e = ⟨completion⟩ ∧ ∀ c ∈ calls, Answers completion c := by
  induction h with
  | nil => exact ⟨rfl, fun _ hc => absurd hc List.not_mem_nil⟩
  | snoc _ hstep ih =>
      obtain ⟨rfl, hcalls⟩ := ih
      cases hstep
      exact ⟨rfl, List.forall_mem_append.mpr ⟨hcalls, List.forall_mem_singleton.mpr rfl⟩⟩

theorem givenBy_eq (h : ∀ c ∈ calls, Answers completion c) : givenBy calls = takenBy calls := by
  induction calls with
  | nil => rfl
  | cons c calls ih =>
      obtain ⟨hc, hcalls⟩ := List.forall_mem_cons.mp h
      rw [givenBy_cons, takenBy_cons, hc.given_eq, ih hcalls]

/-- The calls end at the end of a frame if each of them completes one. -/
theorem atBoundary (h : ∀ c ∈ calls, Answers .done c) : AtBoundary calls := by
  rcases List.eq_nil_or_concat calls with rfl | ⟨before, c, rfl⟩
  · exact atBoundary_nil
  · rw [List.concat_eq_append] at h ⊢
    have hc := h c (List.mem_append_right _ (List.mem_singleton_self c))
    exact atBoundary_snoc.mpr (Or.inl hc.isDone_eq)

/-- A step of a framed echo. -/
theorem framed_step (hf : f.codec = ⟨completion⟩) (input : Slice) (room : Nat)
    (directive : Directive) :
    ∃ f', Codec.step f input room directive
        = (.ok ⟨(input.take room).size, (input.take room).toBytes, completion⟩, f')
      ∧ f'.codec = ⟨completion⟩ := by
  obtain ⟨codec, inFrame⟩ := f
  dsimp only at hf
  subst hf
  cases completion <;> exact ⟨_, rfl, rfl⟩

/-- What an echo was fed it has put out, and a frame is open if it never reports one complete. -/
theorem fed (h : Feeding { codec := (⟨completion⟩ : Echo) } source calls f) :
    f.codec = ⟨completion⟩ ∧ givenBy calls = takenBy calls
      ∧ f.inFrame = (completion != .done && !(takenBy calls).isEmpty) := by
  obtain ⟨hcodec, hcalls⟩ := answers h.steps.unframed
  have hclosed := h.steps.inFrame_eq_false_iff rfl
  refine ⟨hcodec, givenBy_eq hcalls, ?_⟩
  cases completion with
  | done => exact hclosed.mpr (atBoundary hcalls)
  | pending =>
      -- no call completes a frame, so one is open as soon as anything was used
      cases htaken : takenBy calls with
      | nil => exact hclosed.mpr (Or.inl htaken)
      | cons byte bytes =>
          show f.inFrame = true
          rw [← Bool.not_eq_false, hclosed]
          rintro (hnil | ⟨before, last, after, rfl, hdone, -⟩)
          · rw [htaken] at hnil
            cases hnil
          · have hlast := hcalls last (List.mem_append_right _ List.mem_cons_self)
            rw [hlast.isDone_eq] at hdone
            cases hdone

/-- A source decodes to itself. -/
theorem decodesTo_iff {given : List UInt8} {isOpen : Bool} :
    DecodesTo { codec := (⟨completion⟩ : Echo) } source given isOpen
      ↔ given = source ∧ isOpen = (completion != .done && !source.isEmpty) := by
  constructor
  · rintro ⟨f, ⟨calls, hfeeding, -, rfl, rfl⟩, rfl⟩
    obtain ⟨-, hgiven, hopen⟩ := fed hfeeding
    exact ⟨hgiven, hopen⟩
  · rintro ⟨rfl, rfl⟩
    -- one call with the whole source and room for one byte more
    obtain ⟨f, hstep, -⟩ := framed_step (f := { codec := (⟨completion⟩ : Echo) }) rfl
      (.ofBytes ⟨given.toArray⟩) (given.length + 1) .feed
    have hlist : (Slice.ofBytes ⟨given.toArray⟩).toList = given := Slice.toList_ofBytes _
    have htake : ((Slice.ofBytes ⟨given.toArray⟩).take (given.length + 1)).toList = given := by
      rw [Slice.toList_take, hlist]
      exact List.take_of_length_le (by omega)
    have hsize : ((Slice.ofBytes ⟨given.toArray⟩).take (given.length + 1)).size = given.length := by
      rw [← Slice.length_toList, htake]
    have hinput : takenBy [] ++ (Slice.ofBytes ⟨given.toArray⟩).toList <+: given := by
      rw [hlist]
      exact List.prefix_refl _
    have hfeeding := Feeding.nil.snoc (Nat.succ_pos _) hinput hstep
    obtain ⟨-, hgiven, hopen⟩ := fed hfeeding
    have htaken : takenBy [StepCall.mk (.ofBytes ⟨given.toArray⟩) (given.length + 1) .feed
        (.ok ⟨((Slice.ofBytes ⟨given.toArray⟩).take (given.length + 1)).size,
          ((Slice.ofBytes ⟨given.toArray⟩).take (given.length + 1)).toBytes, completion⟩)]
        = given := by
      simp [StepCall.taken, hlist, hsize]
    rw [List.nil_append, htaken] at hgiven hopen
    refine ⟨f, ⟨_, hfeeding, ?_, htaken, hgiven⟩, hopen⟩
    intro last hlast
    simp only [List.nil_append, List.getLast?_singleton, Option.mem_def, Option.some.injEq] at hlast
    subst hlast
    refine ⟨?_, ?_⟩
    · show ((Slice.ofBytes ⟨given.toArray⟩).take (given.length + 1)).toList.length < _
      rw [htake]
      exact Nat.lt_succ_self _
    · simp [StepCall.taken, hlist, hsize]

/-- An echo is regular on every source. -/
theorem regular : Regular { codec := (⟨completion⟩ : Echo) } source where
  succeeds _ _ _ input room hfeeding _ _ := by
    obtain ⟨f', hstep, -⟩ := framed_step (fed hfeeding).1 input room .feed
    exact ⟨_, f', hstep⟩
  given_prefix hd _ _ hfeeding := by
    rw [(decodesTo_iff.mp hd).1, (fed hfeeding).2.1]
    exact takenBy_prefix hfeeding.feeds
  unique hd hd' := by
    obtain ⟨rfl, rfl⟩ := decodesTo_iff.mp hd
    exact decodesTo_iff.mp hd'
  progress {_ _ _ input room _} hfeeding _ hstep hsize hroom := by
    obtain ⟨f', hstep', -⟩ := framed_step (fed hfeeding).1 input room .feed
    rw [hstep'] at hstep
    cases hstep
    dsimp only at hroom ⊢
    rw [Slice.size_take]
    omega

def make {ο : Type} (completion : Completion) (_ : ο) : Except Error Echo := .ok ⟨completion⟩

def pair : ByteArray := ⟨#[1, 2]⟩

/-- Ways for a pair to go. -/
def ways : List Passage :=
  [.oneShot pair, .stream (Slice.ofBytes pair) ByteArray.empty,
    .writer ByteArray.empty [.write (.ofBytes pair), .flush],
    .reader (Slice.ofBytes pair) fun _ => 1]

theorem ways_bring : ∀ p ∈ ways, p.Brings [1, 2] := by
  have hdelivers : Delivers (Slice.ofBytes pair) [1, 2] := by
    have h := delivers_slice (.ofBytes pair)
    rwa [Slice.toList_ofBytes] at h
  have hrequested : requested [.write (.ofBytes pair), .flush] = [1, 2] := by
    simp [Request.bytes, pair]
  intro p hp
  simp only [ways, List.mem_cons, List.not_mem_nil, or_false] at hp
  rcases hp with rfl | rfl | rfl | rfl
  · rfl
  · exact ⟨hdelivers, accepts_bytes _⟩
  · exact ⟨hrequested, accepts_bytes _⟩
  · exact ⟨hdelivers, fun _ => Nat.one_ne_zero⟩

end Echo

/-- A pair goes all ways if each step completes a frame, and none if no step does. -/
theorem decompressors_agree_on_pair :
    let run := fun completion (p : Passage) =>
      p.decompress .machine (framing (Echo.make completion)) {} #[]
    DecodesTo { codec := (⟨.done⟩ : Echo) } [1, 2] [1, 2] false
      ∧ DecodesTo { codec := (⟨.pending⟩ : Echo) } [1, 2] [1, 2] true
      ∧ ∀ p ∈ Echo.ways, Settles (run .done p) (.ok [1, 2])
        ∧ Settles (run .pending p) (.error (.failed .corruptedSource)) := by
  have hdone : DecodesTo { codec := (⟨.done⟩ : Echo) } [1, 2] [1, 2] false :=
    Echo.decodesTo_iff.mpr ⟨rfl, rfl⟩
  have hpending : DecodesTo { codec := (⟨.pending⟩ : Echo) } [1, 2] [1, 2] true :=
    Echo.decodesTo_iff.mpr ⟨rfl, rfl⟩
  refine ⟨hdone, hpending, fun p hp => ?_⟩
  -- the machine has memory for a pair, and nothing else comes of it
  have hmemory : ∀ completion x isOpen,
      DecodesTo { codec := (⟨completion⟩ : Echo) } [1, 2] x isOpen →
      p.Granted .machine ({} : DecompressorOptions).sourceLength
        ({} : DecompressorOptions).destinationLength x.length := by
    intro completion x isOpen hx
    rw [(Echo.decodesTo_iff.mp hx).1]
    exact p.granted_machine (by decide) (by decide)
  obtain ⟨-, hok, -, -⟩ := decompressors_agree (Echo.make .done) ⟨.done⟩ [1, 2] Echo.regular {} rfl
    rfl .machine p (Echo.ways_bring p hp) (hmemory .done) #[]
  obtain ⟨-, -, herror, -⟩ := decompressors_agree (Echo.make .pending) ⟨.pending⟩ [1, 2]
    Echo.regular {} rfl rfl .machine p (Echo.ways_bring p hp) (hmemory .pending) #[]
  exact ⟨hok [1, 2] hdone, herror [1, 2] hpending⟩

end Zstandard
