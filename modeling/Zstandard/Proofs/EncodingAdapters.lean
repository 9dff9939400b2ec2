import Zstandard.Proofs.CompressingReader
import Zstandard.Proofs.CompressingWriter
import Zstandard.Proofs.Encoding

/-!
# Compressing readers and writers over a codec that encodes

Over a codec that encodes its source, each call of a compressing writer comes to an end if the
writer behind does not fail, and each call of a compressing reader if the reader behind answers.
-/

namespace Zstandard

namespace CompressingWriter

variable {κ ω : Type} [Codec κ] {start : κ} {source : List UInt8} {bound : Nat → Nat}
  {fine : ω → Prop} {calls : List StepCall} {c c₁ : CompressingWriter κ (Observed ω)}
  {input : Slice}

/-- A writer that may go on, and has put what was written to it into the frame. -/
structure Engaged (start : κ) (source : List UInt8) (calls : List StepCall)
    (c : CompressingWriter κ (Observed ω)) : Prop where
  /-- The session is ready. -/
  ready : Ready start calls c.session
  /-- Nothing has failed. -/
  clean : Clean calls c
  /-- The calls were offered the source, in order. -/
  offers : Each (Offers source) calls

theorem Engaged.encoding (h : Engaged start source calls c) :
    Encoding start source calls c.session.codec :=
  ⟨h.ready.steps, h.ready.protocol, h.offers⟩

theorem Engaged.free_pos (h : Engaged start source calls c) : 0 < c.session.destination.free :=
  h.ready.fits.free_pos_iff.mpr h.ready.room

/-! ### Single moves -/

/-- A push that succeeds is a move that succeeds. -/
theorem push_of_step {s : Step} {codec : κ} (hactive : c.session.phase = .active)
    (hstep : Codec.step c.session.codec input c.session.destination.free .feed = (.ok s, codec)) :
    ∃ p c₁, onSession (Session.push input) c = .ok p c₁ ∧ c₁.session.codec = codec := by
  obtain ⟨writer, ⟨codec₀, destination, phase⟩⟩ := c
  obtain rfl : phase = .active := hactive
  dsimp only at hstep
  simp only [onSession, Session.push_ok hstep]
  exact ⟨_, _, rfl, rfl⟩

theorem flush_of_step {s : Step} {codec : κ} (hactive : c.session.phase = .active)
    (hstep : Codec.step c.session.codec .empty c.session.destination.free .flush
      = (.ok s, codec)) :
    ∃ more c₁, onSession Session.flush c = .ok more c₁ ∧ c₁.session.codec = codec := by
  obtain ⟨writer, ⟨codec₀, destination, phase⟩⟩ := c
  obtain rfl : phase = .active := hactive
  dsimp only at hstep
  simp only [onSession, Session.flush_ok hstep]
  exact ⟨_, _, rfl, rfl⟩

theorem finish_of_step {s : Step} {codec : κ} (hactive : c.session.phase = .active)
    (hstep : Codec.step c.session.codec .empty c.session.destination.free .finish
      = (.ok s, codec)) :
    ∃ more c₁, onSession Session.finish c = .ok more c₁ ∧ c₁.session.codec = codec := by
  obtain ⟨writer, ⟨codec₀, destination, phase⟩⟩ := c
  obtain rfl : phase = .active := hactive
  dsimp only at hstep
  cases hs : s.completion with
  | pending =>
      simp only [onSession, Session.finish_pending hstep hs]
      exact ⟨_, _, rfl, rfl⟩
  | done =>
      simp only [onSession, Session.finish_done hstep hs]
      exact ⟨_, _, rfl, rfl⟩

section Write

variable [Writer ω]

omit [Codec κ] in
/-- A drain comes to an end if the writer behind does not fail. -/
theorem drain_settles (hfine : Obliges fine) (hopen : c.session.phase ≠ .closed)
    (hc : fine c.writer.ends) :
    ∃ n c', Settles (fun turns => drain turns c) (.ok n c') ∧ fine c'.writer.ends := by
  obtain ⟨writer, ⟨codec, destination, phase⟩⟩ := c
  have hdrain := Session.drain_of_ne_closed codec destination hopen
  obtain ⟨writer', hwritten, hwriter'⟩ :=
    writeAll_settles hfine _ (.ofBytes destination.bytes) rfl writer hc
  refine ⟨destination.bytes.size, ⟨writer', ⟨codec, destination.rewind, phase⟩⟩,
    hwritten.imp fun turns hrun => ?_, hwriter'⟩
  simp only [drain, bind, EStateM.bind, onSession, hdrain, deliver, hrun]
  rfl

omit [Codec κ] in
/-- A flush of the writer behind succeeds. -/
theorem flushWriter_ok (hfine : Obliges fine) (hc : fine c.writer.ends) :
    ∃ c', flushWriter c = .ok () c' ∧ fine c'.writer.ends := by
  obtain ⟨⟨ends, endCalls⟩, session⟩ := c
  obtain ⟨inner, hinner, hfine'⟩ := hfine.flush hc
  have hflush := Observed.flush_of (o := ⟨ends, endCalls⟩) hinner
  refine ⟨⟨⟨inner, endCalls ++ [EndCall.flush (.ok ())]⟩, session⟩, ?_, hfine'⟩
  simp only [flushWriter, hflush]

/-- A drain makes a writer ready again. -/
theorem drain_engages (hfine : Obliges fine) (hopen : c.session.Open start calls)
    (hclean : Clean calls c) (hoffers : Each (Offers source) calls) (hc : fine c.writer.ends) :
    ∃ n c', Settles (fun turns => drain turns c) (.ok n c') ∧ fine c'.writer.ends
      ∧ n = c.session.destination.bytes.size ∧ Engaged start source calls c' := by
  obtain ⟨n, c', hdrain, hc'⟩ := drain_settles hfine hopen.ne_closed hc
  obtain ⟨turns, hturns⟩ := hdrain.reached
  obtain ⟨hsession, hn, haccepted⟩ := (drain_ensures turns hopen.ne_closed).of_ok hturns
  exact ⟨n, c', hdrain, hc', hn, ready_of_drained hopen hsession,
    hclean.drained hsession haccepted, hoffers⟩

/-! ### Coming to an end -/

section Turns

variable {request : Session κ → Except Error Bool × Session κ} {n : Nat}
  {c₂ c' : CompressingWriter κ (Observed ω)}

omit [Codec κ] in
/-- The last turn of a loop of requests. -/
theorem drainWhile_done (hrequest : onSession request c = .ok false c₁)
    (hdrain : Settles (fun turns => drain turns c₁) (.ok n c₂)) :
    Settles (fun turns => drainWhile request turns c) (.ok () c₂) := by
  refine Settles.of_succ ?_
  simp only [drainWhile, bind_of_ok hrequest]
  exact hdrain.bind Settles.const

omit [Codec κ] in
/-- A turn of a loop of requests that is not the last. -/
theorem drainWhile_again (hrequest : onSession request c = .ok true c₁)
    (hdrain : Settles (fun turns => drain turns c₁) (.ok n c₂))
    (hrest : Settles (fun turns => drainWhile request turns c₂) (.ok () c')) :
    Settles (fun turns => drainWhile request turns c) (.ok () c') := by
  refine Settles.of_succ ?_
  simp only [drainWhile, bind_of_ok hrequest]
  exact hdrain.bind hrest

end Turns

theorem writeChunk_room {p : Pushed} (h : onSession (Session.push input) c = .ok p c₁)
    (hroom : p.full = false) (hne : p.consumed ≠ 0) (turns : Nat) :
    writeChunk input (turns + 1) c = .ok p.consumed c₁ := by
  simp only [writeChunk, bind_of_ok h, hroom, Bool.false_eq_true, if_false, ne_eq, hne,
    not_false_eq_true, true_or, if_true]
  rfl

theorem writeChunk_full {p : Pushed} (h : onSession (Session.push input) c = .ok p c₁)
    (hfull : p.full = true) (hempty : input.isEmpty = false) (turns : Nat) :
    writeChunk input (turns + 1) c
      = (drain turns >>= fun n =>
          if n = 0 then throw (.failed .notEnoughDestination)
          else if p.consumed = 0 then writeChunk input turns else pure p.consumed) c₁ := by
  simp only [writeChunk, bind_of_ok h, hfull, if_true, hempty, Bool.false_eq_true,
    or_false, ne_eq]
  cases hdrain : drain turns c₁ with
  | error x c₂ => rw [bind_of_error hdrain, bind_of_error hdrain]
  | ok n c₂ =>
      rw [bind_of_ok hdrain, bind_of_ok hdrain]
      by_cases hn : n = 0
      · simp only [hn, if_true]
        rfl
      · by_cases hp : p.consumed = 0
        · simp only [hn, hp, if_true, if_false, not_true_eq_false]
        · simp only [hn, hp, if_true, if_false, not_false_eq_true]

/-- One turn of a write. If it has used something, the write is at its end; if not, less is left of
what may come. -/
theorem write_turn (hcodec : Encodes start source bound) (hfine : Obliges fine)
    (h : Engaged start source calls c) (hunfinished : Unfinished calls)
    (hinput : takenBy calls ++ input.toList <+: source) (hc : fine c.writer.ends)
    (hne : input.isEmpty = false) :
    ∃ used calls' c₂, fine c₂.writer.ends ∧ Engaged start source calls' c₂ ∧ Unfinished calls'
      ∧ takenBy calls' = takenBy calls ++ input.toList.take used
      ∧ (used ≠ 0 → Settles (fun turns => writeChunk input turns c) (.ok used c₂))
      ∧ (used = 0 → (∀ {r}, Settles (fun turns => writeChunk input turns c₂) r →
            Settles (fun turns => writeChunk input turns c) r)
        ∧ bound (flushesOf calls').count - (givenBy calls').length
          < bound (flushesOf calls).count - (givenBy calls).length) := by
  obtain ⟨s, codec, hstep, he₁, hcount, hbounded, hprogress⟩ :=
    hcodec.feed h.encoding hunfinished h.free_pos hinput
  obtain ⟨p, c₁, hpush, -⟩ := push_of_step h.ready.active hstep
  obtain ⟨s', hstep', hconsumed, hfull, hdest, hwriter, hopen⟩ :=
    (push_ensures input h.ready hunfinished).of_ok hpush
  rw [hstep] at hstep'
  obtain rfl := Except.ok.inj (Prod.mk.inj hstep').1
  have hclean : Clean (calls ++ [⟨input, c.session.destination.free, .feed, .ok s⟩]) c₁ :=
    h.clean.stepped hwriter hdest
  have hunfinished₁ : Unfinished
      (calls ++ [⟨input, c.session.destination.free, .feed, .ok s⟩]) :=
    hunfinished.snoc fun hd => by cases hd
  have htaken : takenBy (calls ++ [⟨input, c.session.destination.free, .feed, .ok s⟩])
      = takenBy calls ++ input.toList.take p.consumed := by
    rw [takenBy_snoc_ok, hconsumed]
  have hle := Codec.produced_le hstep
  cases hp : p.full with
  | false =>
      -- a step that leaves room has used something
      have hlt := DestinationBuffer.isFull_append h.ready.fits hle
      rw [← hdest, ← hfull] at hlt
      have hsize : input.size ≠ 0 := Nat.pos_iff_ne_zero.mp (size_pos_of_isEmpty hne)
      have hused : p.consumed ≠ 0 := hconsumed ▸ hprogress hsize (hlt.mp hp)
      refine ⟨p.consumed, _, c₁, hwriter ▸ hc, ⟨⟨hopen, hfull ▸ hp⟩, hclean, he₁.offers⟩,
        hunfinished₁, htaken, fun _ => Settles.of_succ ?_, fun hzero => absurd hzero hused⟩
      simp only [writeChunk_room hpush hp hused]
      exact Settles.const
  | true =>
      -- the step has put something out, and the session has room again when it is drained
      have hproduced : s.produced.size ≠ 0 :=
        DestinationBuffer.size_ne_zero_of_isFull h.ready.fits h.free_pos hle
          (hdest ▸ hfull ▸ hp)
      obtain ⟨n, c₂, hdrain, hc₂, hn, h₂⟩ :=
        drain_engages hfine hopen hclean he₁.offers (hwriter ▸ hc)
      have hn₀ : n ≠ 0 := by
        rw [hn, hdest, DestinationBuffer.size_append]
        omega
      refine ⟨p.consumed, _, c₂, hc₂, h₂, hunfinished₁, htaken, fun hused => Settles.of_succ ?_,
        fun hzero => ⟨fun hrest => Settles.of_succ ?_, ?_⟩⟩
      · simp only [writeChunk_full hpush hp hne, hused, if_false]
        refine hdrain.bind ?_
        simp only [hn₀, if_false]
        exact Settles.const
      · simp only [writeChunk_full hpush hp hne, hzero, if_true]
        refine hdrain.bind ?_
        simp only [hn₀, if_false]
        exact hrest
      · rw [hcount, length_givenBy_snoc_ok]
        omega

/-- **Writing some input** comes to an end, and uses some of it. -/
theorem writeChunk_settles (hcodec : Encodes start source bound) (hfine : Obliges fine)
    (h : Engaged start source calls c) (hunfinished : Unfinished calls)
    (hinput : takenBy calls ++ input.toList <+: source) (hc : fine c.writer.ends)
    (hne : input.isEmpty = false) :
    ∃ n calls' c', Settles (fun turns => writeChunk input turns c) (.ok n c') ∧ n ≠ 0
      ∧ fine c'.writer.ends ∧ Engaged start source calls' c' ∧ Unfinished calls'
      ∧ takenBy calls' = takenBy calls ++ input.toList.take n := by
  -- the number of flushes stays, so what may still be put out only falls
  induction hleft : bound (flushesOf calls).count - (givenBy calls).length using Nat.strongRecOn
    generalizing calls c with
  | ind left ih =>
    obtain ⟨used, calls₂, c₂, hc₂, h₂, hunfinished₂, htaken, hdone, hagain⟩ :=
      write_turn hcodec hfine h hunfinished hinput hc hne
    by_cases hzero : used = 0
    · obtain ⟨hrest, hless⟩ := hagain hzero
      rw [hzero, List.take_zero, List.append_nil] at htaken
      obtain ⟨n, calls', c', hsettles, hn, hc', h', hunfinished', htaken'⟩ :=
        ih _ (hleft ▸ hless) h₂ hunfinished₂ (htaken ▸ hinput) hc₂ rfl
      exact ⟨n, calls', c', hrest hsettles, hn, hc', h', hunfinished', by rw [htaken', htaken]⟩
    · exact ⟨used, calls₂, c₂, hdone hzero, hzero, hc₂, h₂, hunfinished₂, htaken⟩

/-- One turn of a flush. If more is to come, less is left of what may come. -/
theorem flush_turn (hcodec : Encodes start source bound) (hfine : Obliges fine)
    (h : Engaged start source calls c) (hunfinished : Unfinished calls)
    (hc : fine c.writer.ends) :
    ∃ more c₁ n c₂ calls', onSession Session.flush c = .ok more c₁
      ∧ Settles (fun turns => drain turns c₁) (.ok n c₂) ∧ fine c₂.writer.ends
      ∧ Engaged start source calls' c₂ ∧ Unfinished calls' ∧ takenBy calls' = takenBy calls
      ∧ (more = true → bound (flushesOf calls').next - (givenBy calls').length
          < bound (flushesOf calls).next - (givenBy calls).length) := by
  obtain ⟨s, codec, hstep, he₁, hbounded, hpending⟩ :=
    hcodec.flush h.encoding hunfinished h.free_pos
  obtain ⟨more, c₁, hrequest, -⟩ := flush_of_step h.ready.active hstep
  obtain ⟨s', hstep', hmore, hdest, hwriter, hopen⟩ :=
    (flush_ensures h.ready hunfinished).of_ok hrequest
  rw [hstep] at hstep'
  obtain rfl := Except.ok.inj (Prod.mk.inj hstep').1
  obtain ⟨n, c₂, hdrain, hc₂, -, h₂⟩ := drain_engages hfine hopen (h.clean.stepped hwriter hdest)
    he₁.offers (hwriter ▸ hc)
  refine ⟨more, c₁, n, c₂, _, hrequest, hdrain, hc₂, h₂,
    hunfinished.snoc (fun hd => by cases hd), takenBy_snoc_of_size Slice.size_empty,
    fun hagain => ?_⟩
  obtain ⟨hproduced, hnext⟩ := hpending (eq_of_beq (hmore.symm.trans hagain))
  rw [hnext, length_givenBy_snoc_ok]
  omega

/-- **Flushing** comes to an end, and uses nothing. -/
theorem flushFrame_settles (hcodec : Encodes start source bound) (hfine : Obliges fine)
    (h : Engaged start source calls c) (hunfinished : Unfinished calls)
    (hc : fine c.writer.ends) :
    ∃ calls' c', Settles (fun turns => flushFrame turns c) (.ok () c') ∧ fine c'.writer.ends
      ∧ Engaged start source calls' c' ∧ Unfinished calls' ∧ takenBy calls' = takenBy calls := by
  have hloop : ∃ calls' c', Settles (fun turns => drainWhile Session.flush turns c) (.ok () c')
      ∧ fine c'.writer.ends ∧ Engaged start source calls' c' ∧ Unfinished calls'
      ∧ takenBy calls' = takenBy calls := by
    -- the first turn adds to the count of flushes, so the bound is taken as it stands after it
    induction hleft : bound (flushesOf calls).next - (givenBy calls).length using Nat.strongRecOn
      generalizing calls c with
    | ind left ih =>
      obtain ⟨more, c₁, n, c₂, calls₂, hrequest, hdrain, hc₂, h₂, hunfinished₂, htaken, hless⟩ :=
        flush_turn hcodec hfine h hunfinished hc
      cases more with
      | false =>
          exact ⟨calls₂, c₂, drainWhile_done hrequest hdrain, hc₂, h₂, hunfinished₂, htaken⟩
      | true =>
          obtain ⟨calls', c', hsettles, hc', h', hunfinished', htaken'⟩ :=
            ih _ (hleft ▸ hless rfl) h₂ hunfinished₂ hc₂ rfl
          exact ⟨calls', c', drainWhile_again hrequest hdrain hsettles, hc', h', hunfinished',
            htaken'.trans htaken⟩
  obtain ⟨calls₁, c₁, hloop, hc₁, h₁, hunfinished₁, htaken⟩ := hloop
  obtain ⟨c₂, hflush, hc₂⟩ := flushWriter_ok hfine hc₁
  obtain ⟨hsession, haccepted⟩ := (flushWriter_ensures c₁).of_ok hflush
  exact ⟨calls₁, c₂, hloop.bind ⟨0, fun _ _ => hflush⟩, hc₂,
    ⟨hsession ▸ h₁.ready, h₁.clean.flushed hsession haccepted, h₁.offers⟩, hunfinished₁, htaken⟩

/-- One turn of finishing. If more is to come, less is left of what may come; if not, the frame is
closed and accepted. -/
theorem finish_turn (hcodec : Encodes start source bound) (hfine : Obliges fine)
    (h : Engaged start source calls c) (htaken : takenBy calls = source)
    (hc : fine c.writer.ends) :
    ∃ more c₁ n c₂ calls', onSession Session.finish c = .ok more c₁
      ∧ Settles (fun turns => drain turns c₁) (.ok n c₂) ∧ fine c₂.writer.ends
      ∧ (more = true → Engaged start source calls' c₂ ∧ takenBy calls' = source
        ∧ bound (flushesOf calls').count - (givenBy calls').length
          < bound (flushesOf calls).count - (givenBy calls).length)
      ∧ (more = false → Encoding start source calls' c₂.session.codec ∧ Closed calls'
        ∧ acceptedBy c₂.writer.calls = givenBy calls') := by
  obtain ⟨s, codec, hstep, he₁, hcount, hbounded, hproduced⟩ :=
    hcodec.finish h.encoding h.ready.unclosed htaken h.free_pos
  obtain ⟨more, c₁, hrequest, -⟩ := finish_of_step h.ready.active hstep
  obtain ⟨s', hstep', hmore, hdest, hwriter, hopen, hshut⟩ :=
    (finish_ensures h.ready).of_ok hrequest
  rw [hstep] at hstep'
  obtain rfl := Except.ok.inj (Prod.mk.inj hstep').1
  have hclean : Clean (calls ++ [⟨.empty, c.session.destination.free, .finish, .ok s⟩]) c₁ :=
    h.clean.stepped hwriter hdest
  cases more with
  | true =>
      obtain ⟨n, c₂, hdrain, hc₂, -, h₂⟩ :=
        drain_engages hfine (hopen rfl) hclean he₁.offers (hwriter ▸ hc)
      refine ⟨true, c₁, n, c₂, _, hrequest, hdrain, hc₂, fun _ => ⟨h₂, ?_, ?_⟩,
        fun hmore => by cases hmore⟩
      · exact (takenBy_snoc_of_size Slice.size_empty).trans htaken
      · have hne := hproduced (eq_of_beq hmore.symm)
        rw [hcount, length_givenBy_snoc_ok]
        omega
  | false =>
      have hshut := hshut rfl
      obtain ⟨n, c₂, hdrain, hc₂⟩ := drain_settles hfine hshut.ne_closed (hwriter ▸ hc)
      obtain ⟨turns, hturns⟩ := hdrain.reached
      obtain ⟨hsession, -, haccepted⟩ := (drain_ensures turns hshut.ne_closed).of_ok hturns
      refine ⟨false, c₁, n, c₂, _, hrequest, hdrain, hc₂, (fun hmore => by cases hmore),
        fun _ => ⟨⟨?_, hshut.protocol, he₁.offers⟩, hshut.closed, ?_⟩⟩
      · rw [hsession]
        exact hshut.steps
      · rw [haccepted]
        exact hclean.output.symm

/-- **Finishing** comes to an end when all of the source was written, with the frame closed and
accepted by the writer behind. -/
theorem finishFrame_settles (hcodec : Encodes start source bound) (hfine : Obliges fine)
    (h : Engaged start source calls c) (htaken : takenBy calls = source)
    (hc : fine c.writer.ends) :
    ∃ calls' c', Settles (fun turns => finishFrame turns c) (.ok () c')
      ∧ Encoding start source calls' c'.session.codec ∧ Closed calls'
      ∧ acceptedBy c'.writer.calls = givenBy calls' := by
  have hloop : ∃ calls' c', Settles (fun turns => drainWhile Session.finish turns c) (.ok () c')
      ∧ fine c'.writer.ends ∧ Encoding start source calls' c'.session.codec ∧ Closed calls'
      ∧ acceptedBy c'.writer.calls = givenBy calls' := by
    induction hleft : bound (flushesOf calls).count - (givenBy calls).length using Nat.strongRecOn
      generalizing calls c with
    | ind left ih =>
      obtain ⟨more, c₁, n, c₂, calls₂, hrequest, hdrain, hc₂, hagain, hend⟩ :=
        finish_turn hcodec hfine h htaken hc
      cases more with
      | false => exact ⟨calls₂, c₂, drainWhile_done hrequest hdrain, hc₂, hend rfl⟩
      | true =>
          obtain ⟨h₂, htaken₂, hless⟩ := hagain rfl
          obtain ⟨calls', c', hsettles, hpost⟩ := ih _ (hleft ▸ hless) h₂ htaken₂ hc₂ rfl
          exact ⟨calls', c', drainWhile_again hrequest hdrain hsettles, hpost⟩
  obtain ⟨calls₁, c₁, hloop, hc₁, he₁, hclosed, haccepted₁⟩ := hloop
  obtain ⟨c₂, hflush, hc₂⟩ := flushWriter_ok hfine hc₁
  obtain ⟨hsession, haccepted⟩ := (flushWriter_ensures c₁).of_ok hflush
  exact ⟨calls₁, c₂, hloop.bind ⟨0, fun _ _ => hflush⟩, hsession ▸ he₁, hclosed,
    haccepted.trans haccepted₁⟩

/-! ### Calls -/

/-- A write of some input comes to an end, and uses some of it. -/
theorem write_settles (hcodec : Encodes start source bound) (hfine : Obliges fine)
    (h : Engaged start source calls c) (hunfinished : Unfinished calls)
    (hinput : takenBy calls ++ input.toList <+: source) (hc : fine c.writer.ends)
    (hne : input.isEmpty = false) :
    ∃ n calls' c', Settles (fun turns => c.write turns input) (.ok n, c') ∧ n ≠ 0
      ∧ fine c'.writer.ends ∧ Engaged start source calls' c' ∧ Unfinished calls'
      ∧ takenBy calls' = takenBy calls ++ input.toList.take n := by
  obtain ⟨n, calls', c', hsettles, hpost⟩ :=
    writeChunk_settles hcodec hfine h hunfinished hinput hc hne
  exact ⟨n, calls', c', hsettles.imp fun _ hrun => congrArg outcome hrun, hpost⟩

/-- A flush comes to an end. -/
theorem flush_settles (hcodec : Encodes start source bound) (hfine : Obliges fine)
    (h : Engaged start source calls c) (hunfinished : Unfinished calls)
    (hc : fine c.writer.ends) :
    ∃ calls' c', Settles (fun turns => c.flush turns) (.ok (), c') ∧ fine c'.writer.ends
      ∧ Engaged start source calls' c' ∧ Unfinished calls' ∧ takenBy calls' = takenBy calls := by
  obtain ⟨calls', c', hsettles, hpost⟩ := flushFrame_settles hcodec hfine h hunfinished hc
  exact ⟨calls', c', hsettles.imp fun _ hrun => congrArg outcome hrun, hpost⟩

/-- **Finishing a writer** comes to an end. -/
theorem finish_settles (hcodec : Encodes start source bound) (hfine : Obliges fine)
    (h : Engaged start source calls c) (htaken : takenBy calls = source)
    (hc : fine c.writer.ends) :
    ∃ calls' c', Settles (fun turns => c.finish turns) (.ok (), c')
      ∧ Encoding start source calls' c'.session.codec ∧ Closed calls'
      ∧ acceptedBy c'.writer.calls = givenBy calls' := by
  obtain ⟨calls', c', hframe, hpost⟩ := finishFrame_settles hcodec hfine h htaken hc
  refine ⟨calls', c', hframe.imp fun turns hrun => ?_, hpost⟩
  simp only [finish, hrun]

end Write

end CompressingWriter

namespace CompressingReader

variable {κ ρ : Type} [Codec κ] {start : κ} {source : List UInt8} {bound : Nat → Nat}
  {still : List UInt8 → ρ → Prop} {calls : List StepCall} {served rest : List UInt8}
  {c : CompressingReader κ (Observed ρ)}

/-- The reader behind has `rest` of `source` still to give, and nothing when the frame is to be
closed. -/
structure Backed (still : List UInt8 → ρ → Prop) (source rest : List UInt8)
    (c : CompressingReader κ (Observed ρ)) : Prop where
  /-- The reader behind still gives the rest. -/
  reader : still rest c.reader.ends
  /-- What was received and the rest are the source. -/
  source_eq : receivedBy c.reader.calls ++ rest = source
  /-- The source buffer has a capacity. -/
  capacity : 0 < c.source.capacity
  /-- The frame is closed when there is no rest. -/
  ended : c.finishing = true → rest = []

omit [Codec κ] in
/-- A refill of the source takes from the rest. -/
theorem Backed.refilled (h : Backed still source rest c) {source' : SourceBuffer}
    {reader' : Observed ρ} {rest' : List UInt8} {more : List EndCall}
    {result : Except (Halt Error) Refill} {finishing : Bool}
    (hreader : still rest' reader'.ends) (hcalls : reader'.calls = c.reader.calls ++ more)
    (hmore : SourceBuffer.Refilled c.source source' more result)
    (hrest : receivedBy more ++ rest' = rest) (hended : finishing = true → rest' = []) :
    Backed still source rest' { c with
      reader := reader', source := source', finishing := finishing } where
  reader := hreader
  source_eq := by
    dsimp only
    rw [hcalls, receivedBy_append, List.append_assoc, hrest]
    exact h.source_eq
  capacity := by
    dsimp only
    rw [hmore.capacity]
    exact h.capacity
  ended := hended

/-- What a reader keeps puts the source into the frame. -/
theorem Kept.encoding (h : Kept start calls served c) (hb : Backed still source rest c) :
    Encoding start source calls c.session.codec := by
  have hoffers : Each (Offers source) calls := by
    cases hfinishing : c.finishing with
    | false => exact offers_mono h.offers (h.reading hfinishing).1 ⟨rest, hb.source_eq⟩
    | true =>
        have hsource := hb.source_eq
        rw [hb.ended hfinishing, List.append_nil] at hsource
        exact hsource ▸ h.offers
  rcases h.session with hopen | ⟨hshut, -⟩
  · exact ⟨hopen.steps, hopen.protocol, hoffers⟩
  · exact ⟨hshut.steps, hshut.protocol, hoffers⟩

/-- A session that may go on leaves room for a step. -/
theorem Kept.free_pos (h : Kept start calls served c) (hopen : c.session.Open start calls) :
    0 < c.session.destination.free :=
  hopen.fits.free_pos_iff.mpr (room_of_drained hopen h.drained)

/-- A bound on the fills that a reader can make without putting anything out. -/
def patience (rest : List UInt8) (c : CompressingReader κ (Observed ρ)) : Nat :=
  if c.finishing then 0
  else 1 + 2 * (rest.length + c.source.pending.size) + if c.needsInput then 0 else 1

/-- The second reader has put something out, or has used some of what the first one has pending, or
neither has anything pending and the second one knows that it needs input. -/
def Closer (c c' : CompressingReader κ (Observed ρ)) : Prop :=
  c'.output.toList ≠ [] ∨ c'.source.pending.size < c.source.pending.size
    ∨ (c'.source.pending.size = 0 ∧ c.source.pending.size = 0 ∧ c'.needsInput = true)

section Closer

variable {c' : CompressingReader κ (Observed ρ)}

omit [Codec κ] in
theorem patience_le (rest : List UInt8) (c : CompressingReader κ (Observed ρ)) :
    patience rest c ≤ 2 + 2 * (rest.length + c.source.pending.size) := by
  unfold patience
  split
  · exact Nat.zero_le _
  · split <;> omega

omit [Codec κ] in
/-- A push without a refill brings the reader closer to some output. -/
theorem Closer.patience_lt (h : Closer c c') (hfinishing : c.finishing = false)
    (hneeds : c.needsInput = false) (hfinishing' : c'.finishing = false) :
    c'.output.toList ≠ [] ∨ patience rest c' < patience rest c := by
  have hold : patience rest c = 2 + 2 * (rest.length + c.source.pending.size) := by
    rw [patience, hfinishing, hneeds]
    simp only [Bool.false_eq_true, if_false]
    omega
  rcases h with hout | hless | ⟨hnone', hnone, hneeds'⟩
  · exact Or.inl hout
  · have := patience_le rest c'
    exact Or.inr (by omega)
  · refine Or.inr ?_
    rw [hold, patience, hfinishing', hneeds', hnone', hnone]
    simp only [Bool.false_eq_true, if_false, if_true]
    omega

omit [Codec κ] in
/-- A push after a refill, which has brought something, does so as well. -/
theorem Closer.patience_lt_of_refill {source' : SourceBuffer} {reader' : Observed ρ}
    {rest' : List UInt8} (h : Closer { c with reader := reader', source := source' } c')
    (hfinishing : c.finishing = false) (hneeds : c.needsInput = true)
    (hsome : source'.pending.size ≠ 0)
    (hkept : source'.pending.size + rest'.length = c.source.pending.size + rest.length) :
    c'.output.toList ≠ [] ∨ patience rest' c' < patience rest c := by
  have hold : patience rest c = 1 + 2 * (rest.length + c.source.pending.size) := by
    rw [patience, hfinishing, hneeds]
    simp only [Bool.false_eq_true, if_false, if_true]
    omega
  rcases h with hout | hless | ⟨-, hnone, -⟩
  · exact Or.inl hout
  · have := patience_le rest' c'
    dsimp only at hless
    exact Or.inr (by omega)
  · exact absurd hnone hsome

end Closer

/-- **A push succeeds**, and brings the reader closer to some output. -/
theorem advance_settles (hcodec : Encodes start source bound) (h : Kept start calls served c)
    (hopen : c.session.Open start calls) (hb : Backed still source rest c)
    (hfinishing : c.finishing = false) (houtput : c.output.toList = []) :
    ∃ calls' c', c.advance = (.ok (), c') ∧ Kept start calls' served c'
      ∧ Backed still source rest c' ∧ c'.finishing = false ∧ Closer c c' := by
  have hinput : takenBy calls ++ c.source.pending.toList <+: source :=
    ⟨rest, by rw [← h.source_eq]; exact hb.source_eq⟩
  obtain ⟨s, codec, hstep, -, -, -, hprogress⟩ :=
    hcodec.feed (h.encoding hb) (h.reading hfinishing).1 (h.free_pos hopen) hinput
  have hle := Codec.consumed_le hstep
  refine ⟨_, _, advance_ok hopen h.drained hstep, h.advanced hopen hfinishing houtput hstep,
    ⟨hb.reader, hb.source_eq, hb.capacity, hb.ended⟩, hfinishing, ?_⟩
  have hsize := c.source.size_pending_consume s.consumed
  -- closer by output, by use of the input, or for want of any input
  by_cases hproduced : s.produced.size = 0
  · have hlt : s.produced.size < c.session.destination.free := by
      have := h.free_pos hopen
      omega
    by_cases hzero : c.source.pending.size = 0
    · refine Or.inr (Or.inr ⟨by dsimp only; omega, hzero, ?_⟩)
      have hfull := (DestinationBuffer.isFull_append hopen.fits (Codec.produced_le hstep)).mpr hlt
      have hempty : (c.source.consume s.consumed).pending.isEmpty = true := by
        rw [Slice.isEmpty, hsize, hzero, Nat.zero_sub]
        rfl
      simp only [needsInput, hempty, hfull, Bool.not_false, Bool.and_self]
    · have hconsumed := hprogress hzero hlt
      refine Or.inr (Or.inl ?_)
      dsimp only
      omega
  · refine Or.inl fun hnil => hproduced ?_
    rw [Slice.toList_ofBytes] at hnil
    exact congrArg List.length hnil

section Fill

variable [Reader ρ]

theorem prepare_settles_of_ready (h : (!c.output.isEmpty || c.session.isFinished) = true) :
    Settles (fun turns => c.prepare turns) (.ok (), c) := by
  refine Settles.of_succ ?_
  simp only [prepare_of_ready h]
  exact Settles.const

theorem prepare_settles_of_fill {c' : CompressingReader κ (Observed ρ)}
    {result : Except (Halt Error) Unit × CompressingReader κ (Observed ρ)}
    (h : (!c.output.isEmpty || c.session.isFinished) = false)
    (hfill : Settles (fun turns => c.fill turns) (.ok (), c'))
    (hprepare : Settles (fun turns => c'.prepare turns) result) :
    Settles (fun turns => c.prepare turns) result :=
  Settles.of_succ (hfill.imp₂ hprepare fun _ hfill hprepare =>
    (prepare_of_fill h hfill).trans hprepare)

/-- A fill comes to an end: it puts something out, or ends the frame, or comes closer to it. -/
def Fills (start : κ) (still : List UInt8 → ρ → Prop) (source served rest : List UInt8)
    (c : CompressingReader κ (Observed ρ)) : Prop :=
  ∃ calls' rest' c', Settles (fun turns => c.fill turns) (.ok (), c')
    ∧ Kept start calls' served c' ∧ Backed still source rest' c'
    ∧ (c'.output.toList ≠ [] ∨ c'.session.isFinished = true
      ∨ patience rest' c' < patience rest c)

/-- A step that closes the frame puts something out, or is the last. -/
theorem fills_of_finishing (hcodec : Encodes start source bound) (h : Kept start calls served c)
    (hopen : c.session.Open start calls) (hb : Backed still source rest c)
    (houtput : c.output.toList = []) (hfinishing : c.finishing = true) :
    Fills start still source served rest c := by
  obtain ⟨hnil, -⟩ := h.closing hfinishing
  have htaken : takenBy calls = source := by
    rw [← hb.source_eq, h.source_eq, hnil, hb.ended hfinishing, List.append_nil, List.append_nil]
  obtain ⟨s, codec, hstep, -, -, -, hproduced⟩ :=
    hcodec.finish (h.encoding hb) hopen.unclosed htaken (h.free_pos hopen)
  have hclosed := h.closed hopen hfinishing houtput hstep
  cases hs : s.completion with
  | pending =>
      rw [hs, if_neg (fun hnot => by cases hnot)] at hclosed
      refine ⟨_, rest, _, ⟨0, fun turns _ => fill_of_pending hopen h.drained hfinishing hstep hs⟩,
        hclosed, ⟨hb.reader, hb.source_eq, hb.capacity, hb.ended⟩, Or.inl fun hout => ?_⟩
      rw [Slice.toList_ofBytes] at hout
      exact hproduced hs (congrArg List.length hout)
  | done =>
      rw [hs, if_pos rfl] at hclosed
      exact ⟨_, rest, _, ⟨0, fun turns _ => fill_of_done hopen h.drained hfinishing hstep hs⟩,
        hclosed, ⟨hb.reader, hb.source_eq, hb.capacity, hb.ended⟩, Or.inr (Or.inl rfl)⟩

/-- A refill brings something to push, or shows that the frame is to be closed. -/
theorem fills_of_needsInput (hcodec : Encodes start source bound) (hstill : Supplies still)
    (h : Kept start calls served c) (hopen : c.session.Open start calls)
    (hb : Backed still source rest c) (houtput : c.output.toList = [])
    (hfinishing : c.finishing = false) (hneeds : c.needsInput = true) :
    Fills start still source served rest c := by
  have hempty := pending_of_needsInput hneeds
  have hzero : c.source.pending.size = 0 := by
    rw [← Slice.length_toList, hempty]
    rfl
  obtain ⟨result, source', reader', rest', more, hrefill, hreader', hcalls, hmore, hrest,
      hfinished, hkept⟩ :=
    SourceBuffer.refill_supplied hstill h.fits (by rw [hzero]; exact hb.capacity) hb.reader
  cases result with
  | finished =>
      have hnone : rest' = [] := (List.append_eq_nil_iff.mp (hrest.trans (hfinished rfl))).2
      refine ⟨calls, rest', { c with
          source := source', reader := reader', finishing := true },
        hrefill.imp fun turns => fill_of_finished hfinishing hneeds,
        h.exhausted hfinishing hempty hcalls hmore,
        hb.refilled hreader' hcalls hmore hrest fun _ => hnone, Or.inr (Or.inr ?_)⟩
      -- a reader that is to close its frame makes no more fills without output
      unfold patience
      rw [hfinishing]
      simp only [if_true, Bool.false_eq_true, if_false]
      omega
  | read size =>
      obtain ⟨hne, -⟩ := hmore.read size rfl
      have hrefilled := h.refilled hfinishing hcalls hmore fun hnot => by cases hnot
      obtain ⟨calls', c', hadvance, hkept', hbacked', -, hcloser⟩ :=
        advance_settles hcodec hrefilled hopen
          (hb.refilled hreader' hcalls hmore hrest fun hend => by
            rw [hfinishing] at hend
            cases hend) hfinishing houtput
      -- what was read is pending now
      have hsome : source'.pending.size ≠ 0 := by
        rw [← Slice.length_toList, hmore.pending, hempty, List.nil_append]
        exact fun hzero => hne (List.length_eq_zero_iff.mp hzero)
      exact ⟨calls', rest', c',
        hrefill.imp fun turns hrun => (fill_of_read hfinishing hneeds hrun).trans hadvance, hkept',
        hbacked', (hcloser.patience_lt_of_refill hfinishing hneeds hsome hkept).imp_right Or.inr⟩

/-- **A fill** comes to an end, over a codec that encodes. -/
theorem fill_settles (hcodec : Encodes start source bound) (hstill : Supplies still)
    (h : Kept start calls served c) (hopen : c.session.Open start calls)
    (hb : Backed still source rest c) (houtput : c.output.toList = []) :
    Fills start still source served rest c := by
  cases hfinishing : c.finishing with
  | true => exact fills_of_finishing hcodec h hopen hb houtput hfinishing
  | false =>
      cases hneeds : c.needsInput with
      | true => exact fills_of_needsInput hcodec hstill h hopen hb houtput hfinishing hneeds
      | false =>
          obtain ⟨calls', c', hadvance, hkept, hbacked, hfinishing', hcloser⟩ :=
            advance_settles hcodec h hopen hb hfinishing houtput
          exact ⟨calls', rest, c',
            ⟨0, fun turns _ => (fill_of_not_needsInput hfinishing hneeds).trans hadvance⟩, hkept,
            hbacked, (hcloser.patience_lt hfinishing hneeds hfinishing').imp_right Or.inr⟩

/-- **Preparing output** comes to an end. -/
theorem prepare_settles (hcodec : Encodes start source bound) (hstill : Supplies still)
    (h : Kept start calls served c) (hb : Backed still source rest c) :
    ∃ calls' rest' c', Settles (fun turns => c.prepare turns) (.ok (), c')
      ∧ Kept start calls' served c' ∧ Backed still source rest' c' := by
  -- the loop ends with output or with the frame; until then the patience falls
  induction hleft : patience rest c using Nat.strongRecOn generalizing calls rest c with
  | ind left ih =>
    cases hready : !c.output.isEmpty || c.session.isFinished with
    | true =>
        exact ⟨calls, rest, c, prepare_settles_of_ready hready, h, hb⟩
    | false =>
        obtain ⟨houtput, hopen⟩ := h.may_go_on hready
        obtain ⟨calls₁, rest₁, c₁, hfill, hkept, hbacked, hcloser⟩ :=
          fill_settles hcodec hstill h hopen hb houtput
        cases hready₁ : !c₁.output.isEmpty || c₁.session.isFinished with
        | true =>
            have hprepare := prepare_settles_of_fill hready hfill (prepare_settles_of_ready hready₁)
            exact ⟨calls₁, rest₁, c₁, hprepare, hkept, hbacked⟩
        | false =>
            have hless : patience rest₁ c₁ < patience rest c := by
              rcases hcloser with hout | hfinished | hless
              · exact absurd (hkept.may_go_on hready₁).1 hout
              · rw [hfinished, Bool.or_true] at hready₁
                cases hready₁
              · exact hless
            obtain ⟨calls', rest', c', hprepare, hpost⟩ := ih _ (hleft ▸ hless) hkept hbacked rfl
            exact ⟨calls', rest', c', prepare_settles_of_fill hready hfill hprepare, hpost⟩

/-- **A read** comes to an end. If it gives nothing, the frame is closed and was served. -/
theorem read_settles (hcodec : Encodes start source bound) (hstill : Supplies still)
    (h : Kept start calls served c) (hb : Backed still source rest c) {room : Nat}
    (hroom : room ≠ 0) :
    ∃ b c', Settles (fun turns => c.read turns room) (.ok b, c')
      ∧ (b.size ≠ 0 → ∃ calls' rest', Kept start calls' (served ++ b.data.toList) c'
          ∧ Backed still source rest' c')
      ∧ (b.size = 0 → ∃ calls' codec, Encoding start source calls' codec ∧ Closed calls'
          ∧ served = givenBy calls') := by
  obtain ⟨calls', rest', c', hprepare, hkept, hbacked⟩ := prepare_settles hcodec hstill h hb
  have hbacked' : Backed still source rest' { c' with output := c'.output.drop room } :=
    ⟨hbacked.reader, hbacked.source_eq, hbacked.capacity, hbacked.ended⟩
  have hread : Settles (fun turns => c.read turns room)
      (.ok (c'.output.take room).toBytes, { c' with output := c'.output.drop room }) := by
    refine hprepare.imp fun turns hrun => ?_
    simp only [read, if_neg hroom, hrun]
  refine ⟨_, _, hread, fun _ => ⟨calls', rest', ?_, hbacked'⟩, fun hsize => ?_⟩
  · exact hkept.serve room
  · obtain ⟨turns, hturns⟩ := hread.reached
    obtain ⟨calls₂, hkept₂, hshut, hnil, -⟩ := h.read_nothing hturns hroom hsize
    have hgiven := hkept₂.output_eq
    rw [hnil, List.append_nil] at hgiven
    exact ⟨calls₂, _, hkept₂.encoding hbacked', hshut.closed, hgiven.symm⟩

end Fill

end CompressingReader

end Zstandard
