import Zstandard.Proofs.DecompressingReader
import Zstandard.Proofs.DecompressingWriter
import Zstandard.Proofs.Digesting

/-!
# Decompressing readers and writers over a digesting codec

Over a codec that digests its source, each call of a decompressing writer comes to an end if the
writer behind does not fail, and each call of a decompressing reader if the reader behind answers.
Neither reports that it is stuck.
-/

namespace Zstandard

namespace DecompressingWriter

variable {κ ω : Type} [Codec κ] [Writer ω] {start : κ} {source : List UInt8} {bound : Nat}
  {fine : ω → Prop} {calls : List StepCall} {d : DecompressingWriter κ (Observed ω)}
  {input : Slice}

/-- A push comes to an end. Input of which none is used has filled the destination. -/
theorem pushThrough_settles (hcodec : Digests start source bound) (hfine : Obliges fine)
    (h : Relayed start calls d) (hfeeds : Each (Feeds source) calls)
    (hinput : takenBy calls ++ input.toList <+: source) (hd : fine d.writer.ends) :
    ∃ p d', Settles (fun turns => pushThrough turns input d) (.ok p d') ∧ fine d'.writer.ends
      ∧ (input.size ≠ 0 → p.full = false → p.consumed ≠ 0) := by
  have hdrained := h.drained
  have hactive := h.active
  have hroom : 0 < d.session.destination.free :=
    DestinationBuffer.free_of_empty hdrained ▸ h.room
  obtain ⟨s, codec, hstep, -, -, hprogress⟩ :=
    hcodec.next ⟨h.steps, hfeeds, h.succeeded⟩ hroom hinput
  have hle := Codec.produced_le hstep
  obtain ⟨writer, ⟨codec₀, ⟨bytes, capacity⟩, phase⟩⟩ := d
  dsimp only at hdrained hactive hstep hprogress hd hle
  subst hdrained hactive
  have happ : ByteArray.empty ++ s.produced = s.produced := ByteArray.empty_append
  have hfits : DestinationBuffer.Fits ⟨.empty, capacity⟩ := Nat.zero_le _
  have hfull := DestinationBuffer.isFull_append hfits hle
  obtain ⟨writer', hwritten, hwriter'⟩ :=
    writeAll_settles hfine _ (.ofBytes s.produced) rfl writer hd
  refine ⟨⟨s.consumed, (DestinationBuffer.append ⟨.empty, capacity⟩ s.produced).isFull⟩,
    ⟨writer', ⟨codec, ⟨.empty, capacity⟩, .active⟩⟩, hwritten.imp fun turns hrun => ?_, hwriter',
    fun hne hnot => hprogress hne (hfull.mp hnot)⟩
  simp only [pushThrough, bind, EStateM.bind, onSession, Session.push_ok hstep,
    Session.drain_active, DestinationBuffer.append, DestinationBuffer.rewind, happ, hrun]

/-- **Pushing some input** comes to an end, and uses some of it. -/
theorem writeChunk_settles (hcodec : Digests start source bound) (hfine : Obliges fine)
    (h : Relayed start calls d) (hfeeds : Each (Feeds source) calls)
    (hinput : takenBy calls ++ input.toList <+: source) (hd : fine d.writer.ends)
    (hne : input.isEmpty = false) :
    ∃ n d', Settles (fun turns => writeChunk input turns d) (.ok n d') ∧ fine d'.writer.ends
      ∧ n ≠ 0 := by
  -- a push of which nothing was used has filled the destination, so less can still be put out
  induction hleft : bound - (givenBy calls).length using Nat.strongRecOn generalizing calls d with
  | ind left ih =>
    obtain ⟨p, d₁, hpush, hd₁, hprogress⟩ :=
      pushThrough_settles hcodec hfine h hfeeds hinput hd
    obtain ⟨turns, hturns⟩ := hpush.reached
    obtain ⟨call, h₁, -, htaken, hkeeps, -, hgiven⟩ :=
      (pushThrough_ensures turns input h).of_ok hturns
    by_cases hzero : p.consumed = 0
    · have hfull : p.full = true := by
        cases hf : p.full with
        | true => rfl
        | false =>
            exact absurd hzero (hprogress (Nat.pos_iff_ne_zero.mp (size_pos_of_isEmpty hne)) hf)
      rw [hzero, List.take_zero] at htaken
      have hfeeds₁ := hkeeps source hfeeds hinput
      have hbounded := hcodec.bounded ⟨h₁.steps, hfeeds₁, h₁.succeeded⟩
      have hpos := List.length_pos_iff.mpr (hgiven hfull)
      rw [length_givenBy_snoc] at hbounded
      obtain ⟨n, d₂, hsettles, hpost⟩ := ih _ (by
          rw [length_givenBy_snoc]
          omega) h₁ hfeeds₁ (by simpa [htaken] using hinput) hd₁ rfl
      refine ⟨n, d₂, Settles.of_succ (hpush.bind ?_), hpost⟩
      simp only [hzero, hne, hfull, ne_eq, not_true_eq_false, Bool.false_eq_true, or_self, if_false,
        if_true]
      exact hsettles
    · refine ⟨p.consumed, d₁, Settles.of_succ (hpush.bind ?_), hd₁, hzero⟩
      simp only [ne_eq, hzero, not_false_eq_true, true_or, if_true]
      exact Settles.const

/-- **Settling** comes to an end. -/
theorem settle_settles (hcodec : Digests start source bound) (hfine : Obliges fine)
    (h : Relayed start calls d) (hfeeds : Each (Feeds source) calls)
    (hinput : takenBy calls <+: source) (hd : fine d.writer.ends) :
    ∃ d', Settles (fun turns => settle turns d) (.ok () d') ∧ fine d'.writer.ends := by
  induction hleft : bound - (givenBy calls).length using Nat.strongRecOn generalizing calls d with
  | ind left ih =>
    -- nothing is pushed here, so a full destination is all that keeps the loop going
    have hempty : Slice.empty.toList = [] := rfl
    have hnothing : takenBy calls ++ Slice.empty.toList <+: source := by
      rw [hempty, List.append_nil]
      exact hinput
    obtain ⟨p, d₁, hpush, hd₁, -⟩ := pushThrough_settles hcodec hfine h hfeeds hnothing hd
    obtain ⟨turns, hturns⟩ := hpush.reached
    obtain ⟨call, h₁, -, htaken, hkeeps, -, hgiven⟩ :=
      (pushThrough_ensures turns .empty h).of_ok hturns
    rw [hempty, List.take_nil] at htaken
    cases hfull : p.full with
    | true =>
        have hfeeds₁ := hkeeps source hfeeds hnothing
        have hbounded := hcodec.bounded ⟨h₁.steps, hfeeds₁, h₁.succeeded⟩
        have hpos := List.length_pos_iff.mpr (hgiven hfull)
        rw [length_givenBy_snoc] at hbounded
        obtain ⟨d₂, hsettles, hpost⟩ := ih _ (by
            rw [length_givenBy_snoc]
            omega) h₁ hfeeds₁ (by simpa [htaken] using hinput) hd₁ rfl
        refine ⟨d₂, Settles.of_succ (hpush.bind ?_), hpost⟩
        simp only [hfull, if_true]
        exact hsettles
    | false =>
        refine ⟨d₁, Settles.of_succ (hpush.bind ?_), hd₁⟩
        simp only [hfull, Bool.false_eq_true, if_false]
        exact Settles.const

/-- A write of some input comes to an end, and uses some of it. -/
theorem write_settles (hcodec : Digests start source bound) (hfine : Obliges fine)
    (h : Relayed start calls d) (hfeeds : Each (Feeds source) calls)
    (hinput : takenBy calls ++ input.toList <+: source) (hd : fine d.writer.ends)
    (hne : input.isEmpty = false) :
    ∃ n d', Settles (fun turns => d.write turns input) (.ok n, d') ∧ fine d'.writer.ends
      ∧ n ≠ 0 := by
  obtain ⟨n, d', hchunk, hpost⟩ := writeChunk_settles hcodec hfine h hfeeds hinput hd hne
  refine ⟨n, d', hchunk.imp fun turns hrun => ?_, hpost⟩
  simp only [write, hrun]

/-- **Finishing** comes to an end: it succeeds if the source may end where it does, and fails if
not. -/
theorem finish_settles (hcodec : Digests start source bound) (hfine : Obliges fine)
    (h : Relayed start calls d) (hfeeds : Each (Feeds source) calls)
    (hsource : takenBy calls = source) (hd : fine d.writer.ends) :
    (∃ d', Settles (fun turns => d.finish turns) (.ok (), d'))
      ∨ (∃ d' e, Settles (fun turns => d.finish turns) (.error (.failed e), d')
        ∧ Truncated start source e) := by
  have hinput : takenBy calls <+: source := hsource ▸ List.prefix_refl _
  obtain ⟨d₁, hsettle, hd₁⟩ := settle_settles hcodec hfine h hfeeds hinput hd
  obtain ⟨turns, hturns⟩ := hsettle.reached
  obtain ⟨calls', h₁, htaken, hkeeps, hquiescent⟩ := (settle_ensures turns h).of_ok hturns
  have hempty : Slice.empty.toList = [] := rfl
  have hfeeds₁ := hkeeps source hfeeds (by rw [hempty, List.append_nil]; exact hinput)
  have hactive := h₁.active
  cases hend : Codec.endOfInput d₁.session.codec with
  | ok =>
      obtain ⟨⟨ends, endCalls⟩, session⟩ := d₁
      obtain ⟨inner, hinner, -⟩ := hfine.flush hd₁
      have hflush := Observed.flush_of (o := ⟨ends, endCalls⟩) hinner
      dsimp only at hactive hend
      refine Or.inl ⟨⟨⟨inner, endCalls ++ [EndCall.flush (.ok ())]⟩, session.close⟩,
        hsettle.imp fun turns hrun => ?_⟩
      simp only [finish, bind, EStateM.bind, hrun, onSession, Session.endOfInput, hactive, hend,
        flushWriter, hflush, modify_ok]
  | error e =>
      refine Or.inr ⟨d₁, e, hsettle.imp fun turns hrun => ?_, _, d₁.session.codec,
        ⟨calls', ⟨h₁.steps, hfeeds₁, h₁.succeeded⟩, hquiescent, htaken.trans hsource, rfl⟩, hend⟩
      obtain ⟨writer, session⟩ := d₁
      dsimp only at hactive hend
      simp only [finish, bind, EStateM.bind, hrun, onSession, Session.endOfInput, hactive, hend]

end DecompressingWriter

namespace DecompressingReader

variable {κ ρ : Type} [Codec κ] {start : κ} {source : List UInt8} {bound : Nat}
  {still : List UInt8 → ρ → Prop} {calls : List StepCall} {served rest : List UInt8}
  {d : DecompressingReader κ (Observed ρ)}

/-- The reader behind has `rest` of `source` still to give, and can be asked for it. -/
structure Backed (still : List UInt8 → ρ → Prop) (source rest : List UInt8)
    (d : DecompressingReader κ (Observed ρ)) : Prop where
  /-- The reader behind still gives the rest. -/
  reader : still rest d.reader.ends
  /-- What was received and the rest are the source. -/
  source_eq : receivedBy d.reader.calls ++ rest = source
  /-- The source buffer has a capacity. -/
  capacity : 0 < d.source.capacity

/-- A supplied reader that is stalled only for want of input. -/
structure Provided (still : List UInt8 → ρ → Prop) (source rest : List UInt8)
    (d : DecompressingReader κ (Observed ρ)) : Prop extends Backed still source rest d where
  /-- A call that did nothing had nothing to use. -/
  stalled : d.stalled = true → d.source.pending.size = 0

omit [Codec κ] in
/-- A refill of the source takes from the rest. -/
theorem Backed.refilled (h : Backed still source rest d) {source' : SourceBuffer}
    {reader' : Observed ρ} {rest' : List UInt8} {more : List EndCall}
    {result : Except (Halt Error) Refill} (hreader : still rest' reader'.ends)
    (hcalls : reader'.calls = d.reader.calls ++ more)
    (hmore : SourceBuffer.Refilled d.source source' more result)
    (hrest : receivedBy more ++ rest' = rest) :
    Backed still source rest' { d with reader := reader', source := source' } where
  reader := hreader
  source_eq := by
    dsimp only
    rw [hcalls, receivedBy_append, List.append_assoc, hrest]
    exact h.source_eq
  capacity := by
    dsimp only
    rw [hmore.capacity]
    exact h.capacity

omit [Codec κ] in
/-- Where input is needed, none is pending. -/
theorem Provided.size_of_needsInput (h : Provided still source rest d)
    (hneeds : d.needsInput = true) : d.source.pending.size = 0 := by
  simp only [needsInput, Bool.or_eq_true, Bool.and_eq_true] at hneeds
  rcases hneeds with ⟨hempty, -⟩ | hstalled
  · simpa [Slice.isEmpty] using hempty
  · exact h.stalled hstalled

/-- A bound on the fills that a reader can make without putting anything out. -/
def patience (rest : List UInt8) (d : DecompressingReader κ (Observed ρ)) : Nat :=
  2 * (rest.length + d.source.pending.size) + if d.needsInput then 0 else 1

/-- The second reader has put something out, or has used some of what the first one has pending, or
neither has anything pending and the second one knows that it needs input. -/
def Closer (d d' : DecompressingReader κ (Observed ρ)) : Prop :=
  d'.output.toList ≠ [] ∨ d'.source.pending.size < d.source.pending.size
    ∨ (d'.source.pending.size = 0 ∧ d.source.pending.size = 0 ∧ d'.needsInput = true)

section Closer

variable {d' : DecompressingReader κ (Observed ρ)}

omit [Codec κ] in
theorem patience_le (rest : List UInt8) (d : DecompressingReader κ (Observed ρ)) :
    patience rest d ≤ 2 * (rest.length + d.source.pending.size) + 1 := by
  unfold patience
  split <;> omega

omit [Codec κ] in
/-- A push without a refill brings the reader closer to some output. -/
theorem Closer.patience_lt (h : Closer d d') (hneeds : d.needsInput = false) :
    d'.output.toList ≠ [] ∨ patience rest d' < patience rest d := by
  have hold : patience rest d = 2 * (rest.length + d.source.pending.size) + 1 := by
    rw [patience, hneeds]
    rfl
  rcases h with hout | hless | ⟨hnone', hnone, hneeds'⟩
  · exact Or.inl hout
  · have := patience_le rest d'
    exact Or.inr (by omega)
  · refine Or.inr ?_
    rw [hold, patience, hneeds', hnone', hnone]
    exact Nat.lt_succ_self _

omit [Codec κ] in
/-- A push after a refill, which has brought something, does so as well. -/
theorem Closer.patience_lt_of_refill {source' : SourceBuffer} {reader' : Observed ρ}
    {rest' : List UInt8} (h : Closer { d with reader := reader', source := source' } d')
    (hneeds : d.needsInput = true) (hsome : source'.pending.size ≠ 0)
    (hkept : source'.pending.size + rest'.length = d.source.pending.size + rest.length) :
    d'.output.toList ≠ [] ∨ patience rest' d' < patience rest d := by
  have hold : patience rest d = 2 * (rest.length + d.source.pending.size) := by
    rw [patience, hneeds]
    rfl
  rcases h with hout | hless | ⟨-, hnone, -⟩
  · exact Or.inl hout
  · have := patience_le rest' d'
    dsimp only at hless
    exact Or.inr (by omega)
  · exact absurd hnone hsome

end Closer

/-- **A push over a digesting codec succeeds**, and brings the reader closer to some output. -/
theorem advance_settles (hcodec : Digests start source bound) (h : Held start calls served d)
    (hd : Backed still source rest d) (houtput : d.output.toList = [])
    (hunended : Unended d.reader.calls) (hunfinished : d.finished = false) :
    ∃ calls' d', d.advance = (.ok (), d') ∧ Serving start calls' served d'
      ∧ Provided still source rest d' ∧ Closer d d' := by
  have hfree : 0 < d.session.destination.free :=
    DestinationBuffer.free_of_empty h.drained ▸ h.room
  have hreceived : receivedBy d.reader.calls <+: source := ⟨rest, hd.source_eq⟩
  have hinput : takenBy calls ++ d.source.pending.toList <+: source := h.source_eq ▸ hreceived
  obtain ⟨s, codec, hstep, -, -, hprogress⟩ :=
    hcodec.next (h.feeding.mono hreceived) hfree hinput
  obtain ⟨d', hadvance, hreader, -, hsource, -, -, -, hout, -, hstalled⟩ := h.advance_ok hstep
  have hserving := h.advance_serving houtput hunended hunfinished hstep hadvance
  have hsize : d'.source.pending.size = d.source.pending.size - s.consumed := by
    rw [hsource, SourceBuffer.size_pending_consume]
  have hle := Codec.consumed_le hstep
  -- a call that puts nothing out leaves room, so it uses some of its input
  have hused : s.produced.size = 0 → s.consumed = 0 → d.source.pending.size = 0 := by
    intro hproduced hconsumed
    by_cases hne : d.source.pending.size = 0
    · exact hne
    · exact absurd hconsumed (hprogress hne (by omega))
  refine ⟨_, d', hadvance, hserving, ⟨⟨hreader ▸ hd.reader, hreader ▸ hd.source_eq,
    by rw [hsource]; exact hd.capacity⟩, fun hst => ?_⟩, ?_⟩
  · rw [hstalled, Bool.and_eq_true] at hst
    have hconsumed : s.consumed = 0 := beq_iff_eq.mp hst.1
    have hproduced : s.produced.size = 0 := by simpa [ByteArray.isEmpty] using hst.2
    have := hused hproduced hconsumed
    omega
  · by_cases hproduced : s.produced.size = 0
    · by_cases hconsumed : s.consumed = 0
      · have hzero := hused hproduced hconsumed
        refine Or.inr (Or.inr ⟨by omega, hzero, ?_⟩)
        unfold needsInput
        rw [hstalled, hconsumed]
        simp [ByteArray.isEmpty, hproduced]
      · exact Or.inr (Or.inl (by omega))
    · refine Or.inl fun hnil => hproduced ?_
      rw [hout] at hnil
      exact congrArg List.length hnil

section Fill

variable [Reader ρ]

section Turns

theorem prepare_settles_of_ready (h : (!d.output.isEmpty || d.finished) = true) :
    Settles (fun turns => d.prepare turns) (.ok (), d) := by
  refine Settles.of_succ ?_
  simp only [prepare_of_ready h]
  exact Settles.const

theorem prepare_settles_of_fill {d' : DecompressingReader κ (Observed ρ)}
    {result : Except (Halt Error) Unit × DecompressingReader κ (Observed ρ)}
    (h : (!d.output.isEmpty || d.finished) = false)
    (hfill : Settles (fun turns => d.fill turns) (.ok (), d'))
    (hprepare : Settles (fun turns => d'.prepare turns) result) :
    Settles (fun turns => d.prepare turns) result :=
  Settles.of_succ (hfill.imp₂ hprepare fun _ hfill hprepare =>
    (prepare_of_fill h hfill).trans hprepare)

end Turns

/-! ### Coming to an end -/

/-- All of the source was received, and all of the output has been given out. -/
structure Ended (source : List UInt8) (d : DecompressingReader κ (Observed ρ)) : Prop where
  /-- The end has been reached. -/
  finished : d.finished = true
  /-- There is no output left. -/
  output : d.output.toList = []
  /-- The source was received. -/
  received : receivedBy d.reader.calls = source

omit [Reader ρ] in
/-- At the end of its source, a reader ends or fails by whether the input may end here. -/
theorem conclude_settles {source' : SourceBuffer} {reader' : Observed ρ} {more : List EndCall}
    (h : Serving start calls served d) (hneeds : d.needsInput = true)
    (hcalls : reader'.calls = d.reader.calls ++ more)
    (hmore : SourceBuffer.Refilled d.source source' more (.ok .finished))
    (hempty : source'.pending.isEmpty = true) (houtput : d.output.toList = [])
    (hreceived : receivedBy reader'.calls = source) :
    (∃ d', conclude { d with reader := reader', source := source' } = (.ok (), d')
        ∧ Ended source d')
      ∨ (∃ d' e, conclude { d with reader := reader', source := source' }
          = (.error (.failed e), d') ∧ Truncated start source e) := by
  have hend : d.session.endOfInput = Codec.endOfInput d.session.codec := by
    unfold Session.endOfInput
    rw [h.active]
  obtain ⟨htaken, -, hquiescent⟩ := h.ended hneeds hcalls hmore hempty
  have hfeeding := (h.toHeld.refilled hcalls hmore).feeding
  dsimp only at hfeeding
  rw [hreceived] at hfeeding htaken
  cases hresult : Codec.endOfInput d.session.codec with
  | ok =>
      refine Or.inl ⟨{ d with
        reader := reader', source := source', session := d.session.close, finished := true }, ?_,
        rfl, houtput, hreceived⟩
      simp only [conclude, hempty, if_true, hend, hresult]
  | error e =>
      refine Or.inr ⟨{ d with reader := reader', source := source' }, e, ?_, _, d.session.codec,
        ⟨calls, hfeeding, hquiescent, htaken.symm, rfl⟩, hresult⟩
      simp only [conclude, hempty, if_true, hend, hresult]

/-- **A fill over a digesting codec** comes to an end: it goes on, having put something out or come
closer to it, or it reaches the end of the source, which is one or is not. -/
theorem fill_settles (hcodec : Digests start source bound) (hstill : Supplies still)
    (h : Serving start calls served d) (hd : Provided still source rest d)
    (houtput : d.output.toList = []) :
    (∃ calls' rest' d', Settles (fun turns => d.fill turns) (.ok (), d')
        ∧ Serving start calls' served d' ∧ Provided still source rest' d'
        ∧ (d'.output.toList ≠ [] ∨ patience rest' d' < patience rest d))
      ∨ (∃ d', Settles (fun turns => d.fill turns) (.ok (), d') ∧ Ended source d')
      ∨ (∃ d' e, Settles (fun turns => d.fill turns) (.error (.failed e), d')
        ∧ Truncated start source e) := by
  cases hneeds : d.needsInput with
  | true =>
      have hzero := hd.size_of_needsInput hneeds
      obtain ⟨result, source', reader', rest', more, hrefill, hreader', hcalls, hmore, hrest,
          hfinished, hkept⟩ :=
        SourceBuffer.refill_supplied hstill h.fits (by rw [hzero]; exact hd.capacity) hd.reader
      have hbacked := hd.toBacked.refilled hreader' hcalls hmore hrest
      have hnil : d.source.pending.toList = [] := by
        rw [← List.length_eq_zero_iff, Slice.length_toList, hzero]
      cases result with
      | finished =>
          have hempty : source'.pending.isEmpty = true := by
            rw [SourceBuffer.isEmpty_pending_iff, hmore.pending, (hmore.finished rfl).1, hnil,
              List.append_nil]
          have hreceived : receivedBy reader'.calls = source := by
            rw [hcalls, receivedBy_append, (hmore.finished rfl).1, ← hd.source_eq, hfinished rfl]
          rcases conclude_settles h hneeds hcalls hmore hempty houtput hreceived with
            ⟨d', hconclude, hend⟩ | ⟨d', e, hconclude, hend⟩
          · refine Or.inr (Or.inl ⟨d', hrefill.imp fun turns hrun => ?_, hend⟩)
            exact (fill_of_finished hneeds hrun).trans hconclude
          · refine Or.inr (Or.inr ⟨d', e, hrefill.imp fun turns hrun => ?_, hend⟩)
            exact (fill_of_finished hneeds hrun).trans hconclude
      | read size =>
          obtain ⟨hne, hun⟩ := hmore.read size rfl
          have hheld := h.toHeld.refilled hcalls hmore
          obtain ⟨calls', d', hadvance, hserving, hprovided, hcloser⟩ :=
            advance_settles hcodec hheld hbacked houtput
              (by rw [show reader'.calls = _ from hcalls]; exact h.unended.append hun)
              h.unfinished
          -- what was read is pending now
          have hsome : source'.pending.size ≠ 0 := by
            rw [← Slice.length_toList, hmore.pending, hnil, List.nil_append]
            exact fun hzero => hne (List.length_eq_zero_iff.mp hzero)
          exact Or.inl ⟨calls', rest', d',
            hrefill.imp fun turns hrun => (fill_of_read hneeds hrun).trans hadvance, hserving,
            hprovided, hcloser.patience_lt_of_refill hneeds hsome hkept⟩
  | false =>
      obtain ⟨calls', d', hadvance, hserving, hprovided, hcloser⟩ :=
        advance_settles hcodec h.toHeld hd.toBacked houtput h.unended h.unfinished
      exact Or.inl ⟨calls', rest, d',
        ⟨0, fun turns _ => (fill_of_not_needsInput hneeds).trans hadvance⟩, hserving, hprovided,
        hcloser.patience_lt hneeds⟩

/-- **Preparing output** comes to an end: there is some, or the end has been reached. -/
theorem prepare_settles (hcodec : Digests start source bound) (hstill : Supplies still)
    (h : Serving start calls served d) (hd : Provided still source rest d) :
    (∃ d', Settles (fun turns => d.prepare turns) (.ok (), d')
        ∧ (Ended source d' ∨ d'.output.toList ≠ []
          ∧ ∃ calls' rest', Serving start calls' served d' ∧ Provided still source rest' d'))
      ∨ (∃ d' e, Settles (fun turns => d.prepare turns) (.error (.failed e), d')
        ∧ Truncated start source e) := by
  -- a fill puts something out, which ends the loop, or it lowers the patience
  induction hleft : patience rest d using Nat.strongRecOn generalizing calls rest d with
  | ind left ih =>
    cases hready : !d.output.isEmpty || d.finished with
    | true =>
        rw [h.unfinished, Bool.or_false, Bool.not_eq_true'] at hready
        have hout := toList_ne_nil_of_isEmpty hready
        have hready : (!d.output.isEmpty || d.finished) = true := by rw [hready]; rfl
        exact Or.inl ⟨d, prepare_settles_of_ready hready, Or.inr ⟨hout, calls, rest, h, hd⟩⟩
    | false =>
        have houtput : d.output.toList = [] := by
          rw [Bool.or_eq_false_iff, Bool.not_eq_false'] at hready
          exact toList_of_isEmpty hready.1
        rcases fill_settles hcodec hstill h hd houtput with
          ⟨calls', rest', d', hfill, hserving, hprovided, hcloser⟩ | ⟨d', hfill, hend⟩ |
          ⟨d', e, hfill, hend⟩
        · by_cases hout : d'.output.toList = []
          · have hless := hcloser.resolve_left (not_not_intro hout)
            rcases ih _ (hleft ▸ hless) hserving hprovided rfl with
              ⟨d'', hprepare, hpost⟩ | ⟨d'', e, hprepare, hpost⟩
            · exact Or.inl ⟨d'', prepare_settles_of_fill hready hfill hprepare, hpost⟩
            · exact Or.inr ⟨d'', e, prepare_settles_of_fill hready hfill hprepare, hpost⟩
          · have hready' : (!d'.output.isEmpty || d'.finished) = true := by
              cases hempty : d'.output.isEmpty with
              | true => exact absurd (toList_of_isEmpty hempty) hout
              | false => rfl
            have hprepare := prepare_settles_of_fill hready hfill (prepare_settles_of_ready hready')
            exact Or.inl ⟨d', hprepare, Or.inr ⟨hout, calls', rest', hserving, hprovided⟩⟩
        · have hready' : (!d'.output.isEmpty || d'.finished) = true := by
            rw [hend.finished, Bool.or_true]
          exact Or.inl ⟨d',
            prepare_settles_of_fill hready hfill (prepare_settles_of_ready hready'), Or.inl hend⟩
        · exact Or.inr ⟨d', e,
            Settles.of_succ (hfill.imp fun turns => prepare_of_failure hready), hend⟩

/-- **A read over a digesting codec** comes to an end: it gives some output, or none where the end
has been reached, or it fails where the input may not end. -/
theorem read_settles (hcodec : Digests start source bound) (hstill : Supplies still)
    (h : Serving start calls served d) (hd : Provided still source rest d) {room : Nat}
    (hroom : room ≠ 0) :
    (∃ b d', Settles (fun turns => d.read turns room) (.ok b, d')
        ∧ (b.size = 0 ∧ Ended source d'
          ∨ b.size ≠ 0 ∧ ∃ calls' rest', Serving start calls' (served ++ b.data.toList) d'
            ∧ Provided still source rest' d'))
      ∨ (∃ d' e, Settles (fun turns => d.read turns room) (.error (.failed e.toIoError), d')
        ∧ Truncated start source e) := by
  rcases prepare_settles hcodec hstill h hd with ⟨d', hprepare, hpost⟩ | ⟨d', e, hprepare, hend⟩
  · refine Or.inl ⟨(d'.output.take room).toBytes, { d' with output := d'.output.drop room },
      hprepare.imp fun turns hrun => ?_, ?_⟩
    · simp only [read, if_neg hroom, hrun]
    have hsize : (d'.output.take room).toBytes.size = min room d'.output.toList.length := by
      show (d'.output.take room).toList.length = _
      rw [Slice.toList_take, List.length_take]
    -- nothing is given only where the end has been reached
    rcases hpost with hended | ⟨hout, calls', rest', hserving, hprovided⟩
    · refine Or.inl ⟨by rw [hsize, hended.output]; exact Nat.min_zero _, hended.finished, ?_,
        hended.received⟩
      rw [Slice.toList_drop, hended.output, List.drop_nil]
    · have hpos := List.length_pos_iff.mpr hout
      refine Or.inr ⟨by omega, calls', rest', ?_, ⟨⟨hprovided.reader, hprovided.source_eq,
        hprovided.capacity⟩, hprovided.stalled⟩⟩
      have hbytes : (d'.output.take room).toBytes.data.toList = d'.output.toList.take room :=
        Slice.toList_take _ _
      rw [hbytes]
      exact hserving.serve room
  · refine Or.inr ⟨d', e, hprepare.imp fun turns hrun => ?_, hend⟩
    simp only [read, if_neg hroom, hrun, Halt.map]

end Fill

end DecompressingReader

end Zstandard
