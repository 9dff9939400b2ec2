import Zstandard.Collector
import Zstandard.Proofs.Encoding
import Zstandard.Proofs.Opening

/-!
# Sessions driven by hand over a codec that encodes

A session that compresses is driven by hand: parts of a source are pushed into it one after another,
it is drained whenever it says that it is full, and when all parts are in it is finished, with a
drain after each call. Over a codec that encodes the source this comes to an end, with the frame
closed and all of it collected.

Pushing comes to an end because each push uses some of its input or fills the session, and
finishing because each call but the last puts something out; both are steps down from the bound on
what the codec puts out.
-/

namespace Zstandard

namespace Collector

variable {κ : Type} [Codec κ]

/-! ## Driving by hand -/

/-- Pushes each of some parts, the next when all of the one before has been used. -/
def pushEach : (turns : Nat) → (parts : List Slice) → Work κ Unit
  | _, [] => return ()
  | turns, part :: rest => do
    let p ← onSession (Session.push part)
    if p.full then drain
    pushAll turns (part.drop p.consumed)
    pushEach turns rest

/-- Compresses some parts by hand. -/
def compress (memory : Memory) (make : CompressorOptions → Except Error κ) (o : CompressorOptions)
    (parts : List Slice) (log : Log) (turns : Nat) : Except (Halt Error) (List UInt8) :=
  match Session.compressor memory make o log with
  | (.error e, _) => .error (.failed e)
  | (.ok session, _) =>
    (run (do pushEach turns parts; finish turns) session).map fun bytes => bytes.data.toList

/-! ## Single moves -/

/-- A collector that may go on, and has put what was pushed into the frame. -/
structure Engaged (start : κ) (source : List UInt8) (calls : List StepCall) (c : Collector κ) :
    Prop where
  /-- The session is open. -/
  opened : c.session.Open start calls
  /-- It has room. -/
  room : c.session.destination.isFull = false
  /-- What the calls put out was collected, or waits to be. -/
  output : givenBy calls = c.output.data.toList ++ c.session.destination.bytes.data.toList
  /-- The calls were offered the source, in order. -/
  offers : Each (Offers source) calls

variable {start : κ} {source : List UInt8} {bound : Nat → Nat} {calls : List StepCall}
  {c : Collector κ} {input : Slice}

theorem Engaged.encoding (h : Engaged start source calls c) :
    Encoding start source calls c.session.codec :=
  ⟨h.opened.steps, h.opened.protocol, h.offers⟩

theorem Engaged.free_pos (h : Engaged start source calls c) : 0 < c.session.destination.free :=
  h.opened.fits.free_pos_iff.mpr h.room

theorem engaged_new (codec : κ) (source : List UInt8) {destinationLength : Nat}
    (hroom : 0 < destinationLength) :
    Engaged codec source [] ⟨⟨codec, ⟨.empty, destinationLength⟩, .active⟩, .empty⟩ :=
  ⟨Session.open_new codec hroom, beq_eq_false_iff_ne.mpr (Nat.ne_of_lt hroom), rfl, each_nil⟩

omit [Codec κ] in
theorem drain_ok (hphase : c.session.phase ≠ .closed) :
    drain c = .ok () ⟨{ c.session with destination := c.session.destination.rewind },
      c.output ++ c.session.destination.bytes⟩ := by
  obtain ⟨⟨codec, destination, phase⟩, output⟩ := c
  have hdrain := Session.drain_of_ne_closed codec destination hphase
  simp only [drain, bind, EStateM.bind, onSession, hdrain]

omit [Codec κ] in
/-- What a drain moves is neither lost nor changed. -/
theorem collected_append (output : ByteArray) (b : DestinationBuffer) :
    (output ++ b.bytes).data.toList ++ b.rewind.bytes.data.toList
      = output.data.toList ++ b.bytes.data.toList := by
  rw [DestinationBuffer.toList_rewind, List.append_nil, ByteArray.data_append, Array.toList_append]

/-- A drain makes an open collector ready to go on. -/
theorem drain_engages (hopen : c.session.Open start calls)
    (houtput : givenBy calls = c.output.data.toList ++ c.session.destination.bytes.data.toList)
    (hoffers : Each (Offers source) calls) :
    ∃ c', drain c = .ok () c' ∧ Engaged start source calls c' := by
  obtain ⟨hdrained, hroom⟩ := hopen.drained
  exact ⟨_, drain_ok hopen.ne_closed, hdrained, hroom,
    houtput.trans (collected_append _ _).symm, hoffers⟩

omit [Codec κ] in
/-- What is done behind a drain, if there is one. -/
theorem bind_of_drained {full : Bool} {c₁ c₂ : Collector κ}
    (h : (if full then drain else pure ()) c₁ = .ok () c₂) (work : Work κ Unit) :
    (if full = true then drain >>= fun _ => work else work) c₁ = work c₂ := by
  cases full with
  | false =>
      cases h
      rfl
  | true => exact bind_of_ok h _

/-- **One push**, and a drain if it has filled the session. It uses some of its input, or puts
something out. -/
theorem Engaged.push (hcodec : Encodes start source bound) (h : Engaged start source calls c)
    (hunfinished : Unfinished calls) (hinput : takenBy calls ++ input.toList <+: source) :
    ∃ p c₁ c₂ calls', onSession (Session.push input) c = .ok p c₁
      ∧ (if p.full then drain else pure ()) c₁ = .ok () c₂ ∧ Engaged start source calls' c₂
      ∧ Unfinished calls' ∧ takenBy calls' = takenBy calls ++ input.toList.take p.consumed
      ∧ (flushesOf calls').count = (flushesOf calls).count
      ∧ (input.size ≠ 0 → bound (flushesOf calls).count - (givenBy calls').length
            + (input.drop p.consumed).size
          < bound (flushesOf calls).count - (givenBy calls).length + input.size) := by
  obtain ⟨s, codec, hstep, he, hcount, hbounded, hprogress⟩ :=
    hcodec.feed h.encoding hunfinished h.free_pos hinput
  obtain ⟨⟨codec₀, destination, phase⟩, output⟩ := c
  obtain rfl : phase = .active := h.opened.active
  dsimp only at hstep hprogress
  have hopen := h.opened.stepped hstep (h.opened.may_feed hunfinished h.room input _)
    fun hd => by cases hd
  have hle := Codec.produced_le hstep
  have hfull := DestinationBuffer.isFull_append h.opened.fits hle
  have hpush : onSession (Session.push input)
        (⟨⟨codec₀, destination, .active⟩, output⟩ : Collector κ)
      = .ok ⟨s.consumed, (destination.append s.produced).isFull⟩
        ⟨⟨codec, destination.append s.produced, .active⟩, output⟩ := by
    simp only [onSession, Session.push_ok hstep]
  have houtput : givenBy (calls ++ [⟨input, destination.free, .feed, .ok s⟩])
      = output.data.toList ++ (destination.append s.produced).bytes.data.toList := by
    rw [givenBy_snoc_ok, h.output, DestinationBuffer.toList_append, List.append_assoc]
  have hunfinished' : Unfinished (calls ++ [⟨input, destination.free, .feed, .ok s⟩]) :=
    hunfinished.snoc fun hd => by cases hd
  -- what was put out, or what was used, is a step down
  have hless : input.size ≠ 0 → bound (flushesOf calls).count
        - (givenBy (calls ++ [⟨input, destination.free, .feed, .ok s⟩])).length
        + (input.drop s.consumed).size
      < bound (flushesOf calls).count - (givenBy calls).length + input.size := by
    intro hsize
    have hconsumed := Codec.consumed_le hstep
    rw [length_givenBy_snoc_ok, Slice.size_drop]
    by_cases hroom : s.produced.size < destination.free
    · have hused := hprogress hsize hroom
      omega
    · have hfree := h.free_pos
      dsimp only at hfree
      omega
  cases hp : (destination.append s.produced).isFull with
  | false =>
      exact ⟨_, _, _, _, hpush, by rw [hp]; rfl, ⟨hopen, hp, houtput, he.offers⟩, hunfinished',
        takenBy_snoc_ok, hcount, hless⟩
  | true =>
      obtain ⟨c₂, hdrain, hengaged⟩ := drain_engages
        (c := ⟨⟨codec, destination.append s.produced, .active⟩, output⟩) hopen houtput he.offers
      exact ⟨_, _, c₂, _, hpush, by rw [hp]; exact hdrain, hengaged, hunfinished',
        takenBy_snoc_ok, hcount, hless⟩

/-- **One call to finish**, and a drain. If more is to come, less is left of what may come; if not,
the frame is closed and collected. -/
theorem Engaged.finish (hcodec : Encodes start source bound) (h : Engaged start source calls c)
    (htaken : takenBy calls = source) :
    ∃ more c₁ c₂ calls', onSession Session.finish c = .ok more c₁ ∧ drain c₁ = .ok () c₂
      ∧ (more = true → Engaged start source calls' c₂ ∧ takenBy calls' = source
        ∧ bound (flushesOf calls').count - (givenBy calls').length
          < bound (flushesOf calls).count - (givenBy calls).length)
      ∧ (more = false → Encoding start source calls' c₂.session.codec ∧ Closed calls'
        ∧ c₂.output.data.toList = givenBy calls') := by
  obtain ⟨s, codec, hstep, he, hcount, hbounded, hproduced⟩ :=
    hcodec.finish h.encoding h.opened.unclosed htaken h.free_pos
  obtain ⟨⟨codec₀, destination, phase⟩, output⟩ := c
  obtain rfl : phase = .active := h.opened.active
  dsimp only at hstep
  have hprotocol := h.opened.may_finish h.room (.ok s)
  have houtput : givenBy (calls ++ [⟨.empty, destination.free, .finish, .ok s⟩])
      = output.data.toList ++ (destination.append s.produced).bytes.data.toList := by
    rw [givenBy_snoc_ok, h.output, DestinationBuffer.toList_append, List.append_assoc]
  cases hs : s.completion with
  | pending =>
      have hrequest : onSession Session.finish
            (⟨⟨codec₀, destination, .active⟩, output⟩ : Collector κ)
          = .ok true ⟨⟨codec, destination.append s.produced, .active⟩, output⟩ := by
        simp only [onSession, Session.finish_pending hstep hs]
      have hopen := h.opened.stepped hstep hprotocol fun _ => hs
      obtain ⟨c₂, hdrain, hengaged⟩ := drain_engages
        (c := ⟨⟨codec, destination.append s.produced, .active⟩, output⟩) hopen houtput he.offers
      refine ⟨true, _, c₂, _, hrequest, hdrain, fun _ => ⟨hengaged, ?_, ?_⟩, fun hmore => by
        cases hmore⟩
      · exact (takenBy_snoc_of_size Slice.size_empty).trans htaken
      · have hne := hproduced hs
        rw [hcount, length_givenBy_snoc_ok]
        omega
  | done =>
      have hrequest : onSession Session.finish
            (⟨⟨codec₀, destination, .active⟩, output⟩ : Collector κ)
          = .ok false ⟨⟨codec, destination.append s.produced, .finished⟩, output⟩ := by
        simp only [onSession, Session.finish_done hstep hs]
      have hshut := h.opened.shut hstep hprotocol hs
      refine ⟨false, _, _, _, hrequest, drain_ok hshut.ne_closed, (fun hmore => by cases hmore),
        fun _ => ⟨he, hshut.closed, ?_⟩⟩
      rw [houtput, ← collected_append, DestinationBuffer.toList_rewind, List.append_nil]

/-! ## Coming to an end -/

/-- **Pushing some input** comes to an end, with all of it used. -/
theorem pushAll_settles (hcodec : Encodes start source bound) (h : Engaged start source calls c)
    (hunfinished : Unfinished calls) (hinput : takenBy calls ++ input.toList <+: source) :
    ∃ calls' c', Settles (fun turns => pushAll turns input c) (.ok () c')
      ∧ Engaged start source calls' c' ∧ Unfinished calls'
      ∧ takenBy calls' = takenBy calls ++ input.toList := by
  induction hleft : bound (flushesOf calls).count - (givenBy calls).length + input.size
    using Nat.strongRecOn generalizing calls c input with
  | ind left ih =>
    cases hempty : input.isEmpty with
    | true =>
        refine ⟨calls, c, Settles.of_succ ?_, h, hunfinished, ?_⟩
        · simp only [pushAll, hempty, if_true]
          exact Settles.const
        · rw [toList_of_isEmpty hempty, List.append_nil]
    | false =>
        obtain ⟨p, c₁, c₂, calls₁, hpush, hdrain, h₂, hunfinished₂, htaken, hcount, hless⟩ :=
          h.push hcodec hunfinished hinput
        have hrest : takenBy calls₁ ++ (input.drop p.consumed).toList
            = takenBy calls ++ input.toList := by
          rw [htaken, Slice.toList_drop, List.append_assoc, List.take_append_drop]
        have hsize : input.size ≠ 0 := Nat.pos_iff_ne_zero.mp (size_pos_of_isEmpty hempty)
        obtain ⟨calls', c', hsettles, h', hunfinished', htaken'⟩ :=
          ih _ (by rw [hcount, ← hleft]; exact hless hsize) h₂ hunfinished₂ (hrest ▸ hinput) rfl
        refine ⟨calls', c', Settles.of_succ ?_, h', hunfinished', htaken'.trans hrest⟩
        simp only [pushAll, hempty, Bool.false_eq_true, if_false, bind_of_ok hpush,
          bind_of_drained hdrain]
        exact hsettles

/-- Pushing each of some parts comes to an end, with all of them used. -/
theorem pushEach_settles (hcodec : Encodes start source bound) {parts : List Slice} :
    ∀ {calls : List StepCall} {c : Collector κ}, Engaged start source calls c → Unfinished calls →
      takenBy calls ++ parts.flatMap Slice.toList = source →
      ∃ calls' c', Settles (fun turns => pushEach turns parts c) (.ok () c')
        ∧ Engaged start source calls' c' ∧ Unfinished calls' ∧ takenBy calls' = source := by
  induction parts with
  | nil =>
      intro calls c h hunfinished htaken
      exact ⟨calls, c, Settles.const, h, hunfinished, (List.append_nil _).symm.trans htaken⟩
  | cons part rest ih =>
      intro calls c h hunfinished htaken
      rw [List.flatMap_cons, ← List.append_assoc] at htaken
      obtain ⟨p, c₁, c₂, calls₁, hpush, hdrain, h₂, hunfinished₂, htaken₂, -, -⟩ :=
        h.push hcodec hunfinished ⟨_, htaken⟩
      have hpart : takenBy calls₁ ++ (part.drop p.consumed).toList
          = takenBy calls ++ part.toList := by
        rw [htaken₂, Slice.toList_drop, List.append_assoc, List.take_append_drop]
      have hprefix : takenBy calls₁ ++ (part.drop p.consumed).toList <+: source := by
        rw [hpart]
        exact ⟨_, htaken⟩
      obtain ⟨calls₃, c₃, hpushes, h₃, hunfinished₃, htaken₃⟩ :=
        pushAll_settles hcodec h₂ hunfinished₂ hprefix
      obtain ⟨calls', c', hrest, hpost⟩ :=
        ih h₃ hunfinished₃ (by rw [htaken₃, hpart]; exact htaken)
      refine ⟨calls', c', ?_, hpost⟩
      simp only [pushEach, bind_of_ok hpush, bind_of_drained hdrain]
      exact hpushes.bind (k := fun turns _ => pushEach turns rest) hrest

/-- **Finishing** comes to an end, with the frame closed and collected. -/
theorem finish_settles (hcodec : Encodes start source bound) (h : Engaged start source calls c)
    (htaken : takenBy calls = source) :
    ∃ calls' c', Settles (fun turns => finish turns c) (.ok () c')
      ∧ Encoding start source calls' c'.session.codec ∧ Closed calls'
      ∧ c'.output.data.toList = givenBy calls' := by
  induction hleft : bound (flushesOf calls).count - (givenBy calls).length using Nat.strongRecOn
    generalizing calls c with
  | ind left ih =>
    obtain ⟨more, c₁, c₂, calls₂, hrequest, hdrain, hagain, hend⟩ := h.finish hcodec htaken
    cases more with
    | false =>
        refine ⟨calls₂, c₂, Settles.of_succ ?_, hend rfl⟩
        simp only [finish, drainWhile, bind_of_ok hrequest, bind_of_ok hdrain]
        exact Settles.const
    | true =>
        obtain ⟨h₂, htaken₂, hless⟩ := hagain rfl
        obtain ⟨calls', c', hsettles, hpost⟩ := ih _ (hleft ▸ hless) h₂ htaken₂ rfl
        refine ⟨calls', c', Settles.of_succ ?_, hpost⟩
        simp only [finish, drainWhile, bind_of_ok hrequest, bind_of_ok hdrain]
        exact hsettles

/-- **Compressing by hand closes a frame** around the source, whatever its parts are. -/
theorem compress_settles (hcodec : Encodes start source bound) {memory : Memory}
    {make : CompressorOptions → Except Error κ} {o : CompressorOptions} {parts : List Slice}
    (ho : o.validate = .ok ()) (hdestination : memory.grants o.destinationLength = true)
    (hmake : make o = .ok start) (hparts : parts.flatMap Slice.toList = source) (log : Log) :
    ∃ calls codec, Encoding start source calls codec ∧ Closed calls
      ∧ Settles (compress memory make o parts log) (.ok (givenBy calls)) := by
  obtain ⟨log', hopens⟩ := Session.compressor_opens ho hdestination hmake log
  obtain ⟨calls₁, c₁, hpush, h₁, -, htaken⟩ := pushEach_settles hcodec
    (engaged_new start source o.destinationLength_pos) unfinished_nil hparts
  obtain ⟨calls, c, hfinish, he, hclosed, houtput⟩ := finish_settles hcodec h₁ htaken
  refine ⟨calls, c.session.codec, he, hclosed,
    (hpush.bind (k := fun turns _ => finish turns) hfinish).imp fun turns hrun => ?_⟩
  simp only [compress, hopens, run, hrun]
  exact congrArg Except.ok houtput

end Collector

end Zstandard
