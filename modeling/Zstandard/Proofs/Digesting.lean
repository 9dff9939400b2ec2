import Zstandard.Proofs.OneShot
import Zstandard.Proofs.Pump

/-!
# Codecs that take what they are fed

A codec digests a source if no call that feeds it the source fails, if each such call that leaves
room uses something, and if all of them together put out no more than some bound. A pump over such a
codec comes to the end of its source, provided that its reader answers and its writer does not fail:
a round of `feedPending` puts something out, a round of `feedReader` receives something, and a round
of `feedRemainder` uses something.
-/

namespace Zstandard

/-- A codec takes `source` without a failure, and puts out at most `bound` bytes meanwhile. -/
structure Digests {κ : Type} [Codec κ] (start : κ) (source : List UInt8) (bound : Nat) :
    Prop where
  /-- No call that feeds it fails. -/
  succeeds : ∀ {calls : List StepCall} {codec : κ} {input : Slice} {room : Nat},
    Feeding start source calls codec → 0 < room → takenBy calls ++ input.toList <+: source →
    ∃ s codec', Codec.step codec input room .feed = (.ok s, codec')
  /-- A call that has input and leaves room uses something. -/
  progress : ∀ {calls : List StepCall} {codec codec' : κ} {input : Slice} {room : Nat} {s : Step},
    Feeding start source calls codec → takenBy calls ++ input.toList <+: source →
    Codec.step codec input room .feed = (.ok s, codec') → input.size ≠ 0 →
    s.produced.size < room → s.consumed ≠ 0
  /-- There is an end to what it puts out. -/
  bounded : ∀ {calls : List StepCall} {codec : κ},
    Feeding start source calls codec → (givenBy calls).length ≤ bound

/-- What the next call comes to. -/
theorem Digests.next {κ : Type} [Codec κ] {start codec : κ} {source : List UInt8} {bound : Nat}
    (h : Digests start source bound) {calls : List StepCall} {input : Slice} {room : Nat}
    (hfeeding : Feeding start source calls codec) (hroom : 0 < room)
    (hinput : takenBy calls ++ input.toList <+: source) :
    ∃ s codec', Codec.step codec input room .feed = (.ok s, codec')
      ∧ Feeding start source (calls ++ [⟨input, room, .feed, .ok s⟩]) codec'
      ∧ (givenBy calls).length + s.produced.size ≤ bound
      ∧ (input.size ≠ 0 → s.produced.size < room → s.consumed ≠ 0) := by
  obtain ⟨s, codec', hstep⟩ := h.succeeds hfeeding hroom hinput
  have hfeeding' := hfeeding.snoc hroom hinput hstep
  refine ⟨s, codec', hstep, hfeeding', ?_, h.progress hfeeding hinput hstep⟩
  have hbounded := h.bounded hfeeding'
  rwa [length_givenBy_snoc_ok] at hbounded

/-- `source` takes the codec from `start` to `codec`, which has put out `given` and has nothing more
to give. -/
def Decodes {κ : Type} [Codec κ] (start : κ) (source given : List UInt8) (codec : κ) : Prop :=
  ∃ calls, Feeding start source calls codec ∧ Quiescent calls ∧ takenBy calls = source
    ∧ givenBy calls = given

/-- `source` can be decoded, but may not end where it does. -/
def Truncated {κ : Type} [Codec κ] (start : κ) (source : List UInt8) (e : Error) : Prop :=
  ∃ given codec, Decodes start source given codec ∧ Codec.endOfInput codec = .error e

namespace Pump

variable {κ ε : Type} [Codec κ]

/-! ## One turn -/

section Turns

variable {p p₁ : Pump κ ε} {s : Step}

/-- A step that succeeds is a move that succeeds. -/
theorem feed_ok {codec : κ}
    (h : Codec.step p.codec p.source.pending p.destination.free .feed = (.ok s, codec)) :
    ∃ p₁, feed p = .ok s p₁ := by
  obtain ⟨codec₀, ends, source, destination, readTotal, writtenTotal, log⟩ := p
  dsimp only at h
  simp only [feed, h]
  exact ⟨_, rfl⟩

theorem feedPending_full [Writer ε] (h : feed p = .ok s p₁)
    (hfull : p₁.destination.isFull = true) (turns : Nat) (progress : Bool) :
    feedPending (turns + 1) progress p
      = (flush turns >>= fun _ => feedPending turns (progress || s.madeProgress)) p₁ := by
  simp only [feedPending, bind_of_ok h, get_bind, hfull, if_true]

theorem feedPending_room [Writer ε] (h : feed p = .ok s p₁)
    (hroom : p₁.destination.isFull = false) (turns : Nat) (progress : Bool) :
    feedPending (turns + 1) progress p = .ok (progress || s.madeProgress) p₁ := by
  simp only [feedPending, bind_of_ok h, get_bind, hroom, Bool.false_eq_true, if_false]
  rfl

end Turns

/-! ## Coming to an end -/

omit [Codec κ] in
/-- A flush of a full destination comes to an end if the writer does not fail. -/
theorem flush_settles [Writer ε] {fine : ε → Prop} (hfine : Obliges fine)
    {p : Pump κ (Observed ε)} (hne : p.destination.bytes.size ≠ 0) (hp : fine p.ends.ends) :
    ∃ p', Settles (fun turns => flush turns p) (.ok () p') ∧ fine p'.ends.ends := by
  obtain ⟨codec, ends, source, destination, readTotal, writtenTotal, log⟩ := p
  obtain ⟨o', hflushed, ho'⟩ := DestinationBuffer.flush_settles hfine hne hp
  refine ⟨⟨codec, o', source, destination.rewind, readTotal,
    writtenTotal + destination.bytes.size, if destination.bytes.size = 0 then log else
      log.push (.flushed destination.bytes.size)⟩, hflushed.imp fun turns hrun => ?_, ho'⟩
  dsimp only at hrun
  simp only [flush, hrun]

/-- One of the steps until there is room. If it leaves room, it is the last; if not, the next one
has room again, and less is left of what may be put out. -/
theorem feedPending_turn [Writer ε] {start : κ} {source : List UInt8} {bound : Nat}
    (hcodec : Digests start source bound) {fine : ε → Prop} (hfine : Obliges fine)
    {calls : List StepCall} {p : Pump κ (Observed ε)} (progress : Bool) (h : Fed start calls p)
    (hreceived : receivedBy p.ends.calls <+: source) (hp : fine p.ends.ends) :
    ∃ (s : Step) (p₂ : Pump κ (Observed ε)) (calls' : List StepCall), Fed start calls' p₂
      ∧ fine p₂.ends.ends
      ∧ receivedBy p₂.ends.calls = receivedBy p.ends.calls
      ∧ p₂.source = p.source.consume s.consumed
      ∧ (p.source.pending.size ≠ 0 → s.madeProgress = true)
      ∧ ((p.source.pending.size ≠ 0 → s.consumed ≠ 0)
            ∧ Settles (fun turns => feedPending turns progress p)
              (.ok (progress || s.madeProgress) p₂)
          ∨ bound - (givenBy calls').length < bound - (givenBy calls).length
            ∧ ∀ {r}, Settles (fun turns => feedPending turns (progress || s.madeProgress) p₂) r →
              Settles (fun turns => feedPending turns progress p) r) := by
  have hroom := h.destination_fits.free_pos_iff.mpr h.room
  have hinput : takenBy calls ++ p.source.pending.toList <+: source := h.source ▸ hreceived
  obtain ⟨s, codec, hstep, -, hbounded, hprogress⟩ :=
    hcodec.next (Feeding.mono ⟨h.steps, h.feeds, h.succeeded⟩ hreceived) hroom hinput
  obtain ⟨p₁, hfeed⟩ := feed_ok hstep
  obtain ⟨hclean, -, hends, hsource, hdest⟩ := (feed_ensures h.toClean).of_ok hfeed
  have hfeeds := h.feeds_next (.ok s)
  rw [← hends] at hfeeds
  -- a step with input makes progress, either by using it or by filling the destination
  have hmade : p.source.pending.size ≠ 0 → s.madeProgress = true := by
    intro hne
    unfold Step.madeProgress
    by_cases hlt : s.produced.size < p.destination.free
    · simp [hprogress hne hlt]
    · have hproduced : s.produced.size ≠ 0 := by omega
      simp [hproduced]
  have hle := Codec.produced_le hstep
  cases hfull : p₁.destination.isFull with
  | true =>
      -- the step has put something out, and the next one has room again
      have hne : s.produced.size ≠ 0 :=
        DestinationBuffer.size_ne_zero_of_isFull h.destination_fits hroom hle (hdest ▸ hfull)
      obtain ⟨p₂, hflush, hp₂⟩ := flush_settles hfine (p := p₁)
        (by rw [hdest, DestinationBuffer.size_append]; omega) (hends ▸ hp)
      obtain ⟨turns, hturns⟩ := hflush.reached
      obtain ⟨hclean₂, hquiet, hsource₂, hdest₂, hne₂⟩ :=
        (flush_ensures turns hclean).of_ok hturns
      refine ⟨s, p₂, _, hclean₂.fed_of_rewind hfeeds hquiet hdest₂ hclean.destination_fits hne₂,
        hp₂, by rw [hquiet.received, hends], hsource₂.trans hsource, hmade,
        Or.inr ⟨?_, fun hrest => Settles.of_succ ?_⟩⟩
      · rw [length_givenBy_snoc_ok]
        omega
      · simp only [feedPending_full hfeed hfull]
        exact hflush.bind hrest
  | false =>
      refine ⟨s, p₁, _, ⟨hclean, hfeeds, hfull⟩, hends ▸ hp, by rw [hends], hsource, hmade,
        Or.inl ⟨fun hne => ?_, Settles.of_succ ?_⟩⟩
      · rw [hdest] at hfull
        exact hprogress hne ((DestinationBuffer.isFull_append h.destination_fits hle).mp hfull)
      · simp only [feedPending_room hfeed hfull]
        exact Settles.const

/-- **Steps until there is room** come to an end. They have made progress if there was input, and
the last of them has left less of it, if any. -/
theorem feedPending_settles [Writer ε] {start : κ} {source : List UInt8} {bound : Nat}
    (hcodec : Digests start source bound) {fine : ε → Prop} (hfine : Obliges fine)
    {calls : List StepCall} {p : Pump κ (Observed ε)} (progress : Bool) (h : Fed start calls p)
    (hreceived : receivedBy p.ends.calls <+: source) (hp : fine p.ends.ends) :
    ∃ b p', Settles (fun turns => feedPending turns progress p) (.ok b p') ∧ fine p'.ends.ends
      ∧ p'.source.capacity = p.source.capacity
      ∧ (progress = true ∨ p.source.pending.size ≠ 0 → b = true)
      ∧ (p'.source.pending.size = 0 ∨ p'.source.pending.size < p.source.pending.size) := by
  -- on what may still be put out, of which each turn but the last uses up some
  induction hleft : bound - (givenBy calls).length using Nat.strongRecOn
    generalizing calls p progress with
  | ind left ih =>
    obtain ⟨s, p₂, calls₂, h₂, hp₂, hreceived₂, hsource₂, hmade, hturn⟩ :=
      feedPending_turn hcodec hfine progress h hreceived hp
    have hcapacity₂ : p₂.source.capacity = p.source.capacity := by rw [hsource₂]; rfl
    have hpending₂ : p₂.source.pending.size = p.source.pending.size - s.consumed := by
      rw [hsource₂, SourceBuffer.size_pending_consume]
    have hprogress : progress = true ∨ p.source.pending.size ≠ 0 →
        (progress || s.madeProgress) = true := by
      rintro (rfl | hne)
      · rfl
      · rw [hmade hne, Bool.or_true]
    rcases hturn with ⟨hused, hsettles⟩ | ⟨hless, hrest⟩
    · exact ⟨_, p₂, hsettles, hp₂, hcapacity₂, hprogress, by omega⟩
    · obtain ⟨b, p₃, hsettles, hp₃, hcapacity₃, hprogress₃, hpending₃⟩ :=
        ih _ (hleft ▸ hless) _ h₂ (hreceived₂ ▸ hreceived) hp₂ rfl
      exact ⟨b, p₃, hrest hsettles, hp₃, hcapacity₃.trans hcapacity₂,
        fun hmoved => hprogress₃ (Or.inl (hprogress hmoved)), by omega⟩

section Read

variable [Reader ε] [Writer ε] {start : κ} {source : List UInt8} {bound : Nat}
  {still : List UInt8 → ε → Prop}

omit [Codec κ] [Writer ε] in
/-- A refill comes to an end if the reader answers. -/
theorem refill_settles (hstill : Supplies still) {p : Pump κ (Observed ε)} {rest : List UInt8}
    (hroom : p.source.pending.size < p.source.capacity) (hp : still rest p.ends.ends) :
    ∃ result p' rest', Settles (fun turns => refill turns p) (.ok result p')
      ∧ still rest' p'.ends.ends
      ∧ receivedBy p'.ends.calls ++ rest' = receivedBy p.ends.calls ++ rest
      ∧ (result = .finished → rest = []) := by
  obtain ⟨codec, ends, source, destination, readTotal, writtenTotal, log⟩ := p
  obtain ⟨result, source', o', rest', hrefilled, hrest, hreceived, hfinished⟩ :=
    SourceBuffer.refill_settles hstill hroom hp
  cases result with
  | read size =>
      refine ⟨.read size, ⟨codec, o', source', destination, readTotal + size, writtenTotal, log⟩,
        rest', hrefilled.imp fun turns hrun => ?_, hrest, hreceived, hfinished⟩
      dsimp only at hrun
      simp only [refill, hrun]
  | finished =>
      refine ⟨.finished, ⟨codec, o', source', destination, readTotal, writtenTotal, log⟩, rest',
        hrefilled.imp fun turns hrun => ?_, hrest, hreceived, hfinished⟩
      dsimp only at hrun
      simp only [refill, hrun]

/-- **Reading to the end** comes to an end. -/
theorem feedReader_settles (hcodec : Digests start source bound) (hstill : Supplies still)
    (hfine : ∀ rest, Obliges (still rest)) {calls : List StepCall} {p : Pump κ (Observed ε)}
    {rest : List UInt8} (fed : Bool) (h : Fed start calls p) (hp : still rest p.ends.ends)
    (hreceived : receivedBy p.ends.calls ++ rest = source)
    (hroom : p.source.pending.size < p.source.capacity) :
    ∃ b p', Settles (fun turns => feedReader turns fed p) (.ok b p') ∧ still [] p'.ends.ends
      ∧ receivedBy p'.ends.calls = source := by
  -- on what the reader still has; the room for a refill is kept by `feedPending`
  induction hleft : rest.length using Nat.strongRecOn generalizing calls p rest fed with
  | ind left ih =>
    obtain ⟨result, p₁, rest₁, hrefill, hp₁, hreceived₁, hfinished⟩ :=
      refill_settles hstill hroom hp
    obtain ⟨turns, hturns⟩ := hrefill.reached
    obtain ⟨hclean, hdest, more, hmore, hfilled⟩ := (refill_ensures turns h.toClean).of_ok hturns
    rw [hreceived] at hreceived₁
    cases result with
    | finished =>
        have hnil : rest₁ = [] := by
          have hlen := congrArg List.length hreceived₁
          rw [← hreceived, hfinished rfl, hmore, receivedBy_append] at hlen
          simp only [List.length_append, List.length_nil] at hlen
          exact List.length_eq_zero_iff.mp (by omega)
        rw [hnil] at hp₁ hreceived₁
        rw [List.append_nil] at hreceived₁
        exact ⟨fed, p₁, Settles.of_succ (Settles.bind hrefill Settles.const), hp₁, hreceived₁⟩
    | read size =>
        obtain ⟨hne, -⟩ := hfilled.read size rfl
        have hfed : Fed start calls p₁ := by
          refine ⟨hclean, ?_, by rw [hdest]; exact h.room⟩
          rw [hmore, receivedBy_append]
          exact h.feeds.mono fun _ _ _ _ hf => hf.mono (List.prefix_append _ _)
        obtain ⟨b, p₂, hfeed, hp₂, hcapacity, -, hpending⟩ :=
          feedPending_settles hcodec (hfine rest₁) false hfed ⟨rest₁, hreceived₁⟩ hp₁
        obtain ⟨turns', hturns'⟩ := hfeed.reached
        obtain ⟨hquiet, -, calls', hfed', -⟩ :=
          (feedPending_ensures turns' false hfed).of_ok hturns'
        have hsmaller : rest₁.length < left := by
          have hlen := congrArg List.length hreceived₁
          rw [← hreceived, hmore, receivedBy_append] at hlen
          have hpos := List.length_pos_iff.mpr hne
          simp only [List.length_append] at hlen
          omega
        have hbound : p₁.source.pending.size ≤ p₁.source.capacity := by
          have := hclean.source_fits.size_le
          rw [SourceBuffer.size_pending]
          omega
        have hcap : p₁.source.capacity = p.source.capacity := hfilled.capacity
        obtain ⟨b', p₃, hsettles, hpost⟩ := ih _ hsmaller true hfed' hp₂
          (by rw [hquiet.received, hreceived₁]) (by omega) rfl
        exact ⟨b', p₃, Settles.of_succ (hrefill.bind (hfeed.bind hsettles)), hpost⟩

omit [Reader ε] in
/-- **Feeding the remainder** comes to an end. -/
theorem feedRemainder_settles (hcodec : Digests start source bound) {fine : ε → Prop}
    (hfine : Obliges fine) {calls : List StepCall} {p : Pump κ (Observed ε)} (fed : Bool)
    (h : Fed start calls p) (hreceived : receivedBy p.ends.calls <+: source)
    (hp : fine p.ends.ends) :
    ∃ b p', Settles (fun turns => feedRemainder turns fed p) (.ok b p') ∧ fine p'.ends.ends := by
  -- on what is pending: with input there is progress, so the round is not the last one
  induction hleft : p.source.pending.size using Nat.strongRecOn generalizing calls p fed with
  | ind left ih =>
    cases hempty : p.source.pending.isEmpty with
    | true =>
        refine ⟨fed, p, Settles.of_succ ?_, hp⟩
        simp only [feedRemainder, get_bind, hempty, if_true]
        exact Settles.const
    | false =>
        have hpos := size_pos_of_isEmpty hempty
        obtain ⟨b, p₁, hfeed, hp₁, -, hprogress, hpending⟩ :=
          feedPending_settles hcodec hfine false h hreceived hp
        obtain ⟨turns, hturns⟩ := hfeed.reached
        obtain ⟨hquiet, -, calls', hfed', -⟩ := (feedPending_ensures turns false h).of_ok hturns
        obtain rfl : b = true := hprogress (Or.inr (by omega))
        obtain ⟨b', p₂, hsettles, hp₂⟩ := ih _ (by omega) true hfed'
          (by rw [hquiet.received]; exact hreceived) hp₁ rfl
        refine ⟨b', p₂, Settles.of_succ ?_, hp₂⟩
        simp only [feedRemainder, get_bind, hempty, Bool.false_eq_true, if_false]
        exact hfeed.bind hsettles

/-- **Reading the source** comes to an end, with all of it received. -/
theorem readSource_settles (hcodec : Digests start source bound) (hstill : Supplies still)
    (hfine : ∀ rest, Obliges (still rest)) {p : Pump κ (Observed ε)} (h : Fed start [] p)
    (hunended : Unended p.ends.calls) (hp : still source p.ends.ends)
    (hreceived : receivedBy p.ends.calls = [])
    (hroom : p.source.pending.size < p.source.capacity) :
    ∃ p', Settles (fun turns => readSource turns p) (.ok () p') ∧ still [] p'.ends.ends
      ∧ receivedBy p'.ends.calls = source := by
  have hpaused : Paused [] p := by
    intro last hlast
    simp at hlast
  obtain ⟨fed₁, p₁, hreader, hp₁, hreceived₁⟩ := feedReader_settles hcodec hstill hfine false h hp
    (by rw [hreceived]; rfl) hroom
  obtain ⟨turns₁, hturns₁⟩ := hreader.reached
  obtain ⟨-, calls₁, hfed₁, hpaused₁⟩ :=
    (feedReader_ensures turns₁ false h hpaused hunended).of_ok hturns₁
  have hprefix : receivedBy p₁.ends.calls <+: source := hreceived₁ ▸ List.prefix_refl _
  obtain ⟨fed₂, p₂, hremainder, hp₂⟩ :=
    feedRemainder_settles hcodec (hfine []) fed₁ hfed₁ hprefix hp₁
  obtain ⟨turns₂, hturns₂⟩ := hremainder.reached
  obtain ⟨hquiet₂, -, calls₂, hfed₂, -⟩ :=
    (feedRemainder_ensures turns₂ fed₁ hfed₁ hpaused₁).of_ok hturns₂
  cases fed₂ with
  | true =>
      exact ⟨p₂, hreader.bind (hremainder.bind Settles.const), hp₂,
        hquiet₂.received.trans hreceived₁⟩
  | false =>
      obtain ⟨b, p₃, hfeed, hp₃, -⟩ := feedPending_settles hcodec (hfine []) false hfed₂
        (by rw [hquiet₂.received]; exact hprefix) hp₂
      obtain ⟨turns₃, hturns₃⟩ := hfeed.reached
      obtain ⟨hquiet₃, -⟩ := (feedPending_ensures turns₃ false hfed₂).of_ok hturns₃
      exact ⟨p₃, hreader.bind (hremainder.bind (hfeed.bind Settles.const)), hp₃,
        (hquiet₃.received.trans hquiet₂.received).trans hreceived₁⟩

end Read

omit [Codec κ] in
/-- **Completing** comes to an end if the writer does not fail. -/
theorem complete_settles [Writer ε] {fine : ε → Prop} (hfine : Obliges fine)
    {p : Pump κ (Observed ε)} (hp : fine p.ends.ends) :
    ∃ p', Settles (fun turns => complete turns p) (.ok () p') ∧ fine p'.ends.ends := by
  obtain ⟨codec, ends, source, destination, readTotal, writtenTotal, log⟩ := p
  have hremaining : ∃ destination' o',
      Settles (fun turns => destination.writeRemaining turns ends) (.ok (), destination', o')
        ∧ fine o'.ends := by
    by_cases hzero : destination.bytes.size = 0
    · refine ⟨destination, ends, ?_, hp⟩
      simp only [DestinationBuffer.writeRemaining, if_pos hzero]
      exact Settles.const
    · obtain ⟨o', hflush, ho'⟩ := DestinationBuffer.flush_settles hfine hzero hp
      refine ⟨destination.rewind, o', ?_, ho'⟩
      simp only [DestinationBuffer.writeRemaining, if_neg hzero]
      exact hflush
  obtain ⟨destination', ⟨inner, calls⟩, hwritten, ho'⟩ := hremaining
  obtain ⟨inner', hinner, hfine'⟩ := hfine.flush ho'
  have hflush := Observed.flush_of (o := ⟨inner, calls⟩) hinner
  refine ⟨⟨codec, ⟨inner', calls ++ [EndCall.flush (.ok ())]⟩, source, destination', readTotal,
    writtenTotal + destination.bytes.size,
    (if destination.bytes.size = 0 then log else log.push (.flushed destination.bytes.size)).push
      (.streamDone readTotal (writtenTotal + destination.bytes.size))⟩,
    hwritten.imp fun turns hrun => ?_, hfine'⟩
  simp only [complete, hrun, hflush]

end Pump

/-! ## One-shot operations -/

namespace OneShot

variable {κ : Type} [Codec κ] {memory : Memory} {o o₁ o₂ : OneShot κ} {s : Step}
  {remaining : Slice}

/-- A step that succeeds is a move that succeeds. -/
theorem step_ok {codec : κ} {input : Slice} {directive : Directive}
    (h : Codec.step o.codec input o.destination.free directive = (.ok s, codec)) :
    ∃ o₁, step input directive o = .ok s o₁ ∧ o₁.codec = codec := by
  obtain ⟨codec₀, destination, log⟩ := o
  dsimp only at h
  simp only [step, h]
  exact ⟨_, rfl, rfl⟩

omit [Codec κ] in
/-- A full destination grows, if there is memory. -/
theorem grow_ok {size : Nat} (hmemory : memory.Grows o.destination.unit size)
    (hsize : o.destination.bytes.size ≤ size) (hfits : o.destination.Fits)
    (hfull : o.destination.isFull = true) : ∃ o₁, grow memory o = .ok () o₁ := by
  obtain ⟨codec, destination, log⟩ := o
  obtain ⟨destination', hgrow⟩ := hfits.grow_of_isFull hfull (hmemory _ hsize)
  dsimp only at hgrow
  simp only [grow, hgrow]
  exact ⟨_, rfl⟩

/-! ### One turn -/

theorem feedFrames_full (h : step remaining .feed o = .ok s o₁)
    (hfull : o₁.destination.isFull = true) (hgrow : grow memory o₁ = .ok () o₂) (turns : Nat) :
    feedFrames memory (turns + 1) remaining o
      = feedFrames memory turns (remaining.drop s.consumed) o₂ := by
  simp only [feedFrames, bind_of_ok h, get_bind, hfull, if_true, bind_of_ok hgrow]

theorem feedFrames_room (h : step remaining .feed o = .ok s o₁)
    (hroom : o₁.destination.isFull = false) (hmade : (remaining.drop s.consumed).isEmpty = false →
      s.madeProgress = true) (turns : Nat) :
    feedFrames memory (turns + 1) remaining o
      = if (remaining.drop s.consumed).isEmpty then .ok () o₁
        else feedFrames memory turns (remaining.drop s.consumed) o₁ := by
  simp only [feedFrames, bind_of_ok h, get_bind, hroom, Bool.false_eq_true, if_false]
  cases hempty : (remaining.drop s.consumed).isEmpty with
  | true => rfl
  | false => simp only [hmade hempty, if_true, Bool.false_eq_true, if_false]

theorem feedAll_full (hne : remaining.isEmpty = false) (h : step remaining .feed o = .ok s o₁)
    (hfull : o₁.destination.isFull = true) (hgrow : grow memory o₁ = .ok () o₂) (turns : Nat) :
    feedAll memory (turns + 1) remaining o
      = feedAll memory turns (remaining.drop s.consumed) o₂ := by
  simp only [feedAll, hne, Bool.false_eq_true, if_false, bind_of_ok h, get_bind, hfull,
    Bool.true_or, if_true, bind_of_ok hgrow]

theorem feedAll_room (hne : remaining.isEmpty = false) (h : step remaining .feed o = .ok s o₁)
    (hroom : o₁.destination.isFull = false) (hmade : s.madeProgress = true) (turns : Nat) :
    feedAll memory (turns + 1) remaining o
      = feedAll memory turns (remaining.drop s.consumed) o₁ := by
  simp only [feedAll, hne, Bool.false_eq_true, if_false, bind_of_ok h, get_bind, hroom, hmade,
    Bool.not_true, Bool.or_self]

/-! ### Coming to an end -/

variable {start : κ} {source : List UInt8} {bound : Nat}

/-- A step of a digesting codec: it either fills the destination, which can be grown, or uses some
of what remains. -/
theorem Fed.next (hcodec : Digests start source bound) {calls : List StepCall}
    (h : Fed start source calls remaining o)
    (hmemory : memory.Grows o.destination.unit bound) :
    ∃ s o₁ calls₁, step remaining .feed o = .ok s o₁ ∧ (givenBy calls₁).length ≤ bound
      ∧ (givenBy calls₁).length = (givenBy calls).length + s.produced.size
      ∧ ((o₁.destination.isFull = true ∧ s.produced.size ≠ 0
            ∧ ∃ o₂, grow memory o₁ = .ok () o₂ ∧ o₂.destination.unit = o.destination.unit
              ∧ Fed start source calls₁ (remaining.drop s.consumed) o₂)
          ∨ (o₁.destination.isFull = false ∧ (remaining.size ≠ 0 → s.consumed ≠ 0)
            ∧ o₁.destination.unit = o.destination.unit
            ∧ Fed start source calls₁ (remaining.drop s.consumed) o₁)) := by
  have hroom := h.fits.free_pos_iff.mpr h.room
  have hinput : takenBy calls ++ remaining.toList <+: source :=
    ⟨[], by rw [List.append_nil]; exact h.source_eq.symm⟩
  obtain ⟨s, codec, hstep, -, -, hprogress⟩ := hcodec.next h.feeding hroom hinput
  obtain ⟨o₁, hmove, -⟩ := step_ok hstep
  obtain ⟨hstep₁, hdest⟩ := (step_ensures remaining .feed o).of_ok hmove
  obtain ⟨calls₁, hfeeding, hsource, houtput, hfits, -⟩ := h.stepped hstep₁ hdest
  have hle := Codec.produced_le hstep
  have hgiven : (givenBy calls₁).length = (givenBy calls).length + s.produced.size := by
    rw [← houtput, hdest, GrowableBuffer.toList_append, h.output, List.length_append]
    rfl
  have hbounded := hcodec.bounded hfeeding
  have hsize : o₁.destination.bytes.size ≤ bound :=
    Nat.le_trans (Nat.le_of_eq (congrArg List.length houtput)) hbounded
  have hunit : o₁.destination.unit = o.destination.unit := by rw [hdest]; rfl
  refine ⟨s, o₁, calls₁, hmove, hbounded, hgiven, ?_⟩
  have hlt := h.fits.isFull_append hle
  rw [← hdest] at hlt
  cases hfull : o₁.destination.isFull with
  | true =>
      obtain ⟨o₂, hgrow⟩ := grow_ok (hunit ▸ hmemory) hsize hfits hfull
      obtain ⟨hcodec₂, hgrown⟩ := (grow_ensures memory o₁).of_ok hgrow
      obtain ⟨hfits₂, hbytes, hunit₂, hroom₂⟩ := hfits.grow hgrown
      refine Or.inl ⟨rfl, fun hzero => ?_, o₂, hgrow, hunit₂.trans hunit,
        hcodec₂ ▸ hfeeding, hsource, hbytes ▸ houtput, hfits₂, hroom₂⟩
      rw [hlt.mpr (by omega)] at hfull
      cases hfull
  | false =>
      exact Or.inr ⟨rfl, fun hne => hprogress hne (hlt.mp hfull), hunit, hfeeding, hsource, houtput,
        hfits, hfull⟩

/-- **Feeding all frames** comes to an end. -/
theorem feedFrames_settles (hcodec : Digests start source bound) {calls : List StepCall}
    (h : Fed start source calls remaining o)
    (hmemory : memory.Grows o.destination.unit bound) :
    ∃ o', Settles (fun turns => feedFrames memory turns remaining o) (.ok () o') := by
  -- each turn puts something out or uses something, so the sum of what is left of both decreases
  induction hleft : bound - (givenBy calls).length + remaining.size using Nat.strongRecOn
    generalizing calls remaining o with
  | ind left ih =>
    obtain ⟨s, o₁, calls₁, hmove, hbounded, hgiven, hnext⟩ := h.next hcodec hmemory
    have hsize := remaining.size_drop s.consumed
    rcases hnext with ⟨hfull, hne, o₂, hgrow, hunit, hfed⟩ | ⟨hroom, hprogress, hunit, hfed⟩
    · obtain ⟨o', hsettles⟩ := ih _ (by omega) hfed (hunit ▸ hmemory) rfl
      refine ⟨o', Settles.of_succ ?_⟩
      simp only [feedFrames_full hmove hfull hgrow]
      exact hsettles
    · -- with room left and something remaining, the step has used some input
      have hmade : (remaining.drop s.consumed).isEmpty = false → s.madeProgress = true := by
        intro hempty
        have hpos := size_pos_of_isEmpty hempty
        simp [Step.madeProgress, hprogress (by omega)]
      cases hempty : (remaining.drop s.consumed).isEmpty with
      | true =>
          refine ⟨o₁, Settles.of_succ ?_⟩
          simp only [feedFrames_room hmove hroom hmade, hempty, if_true]
          exact Settles.const
      | false =>
          have hpos := size_pos_of_isEmpty hempty
          have hconsumed := hprogress (by omega)
          obtain ⟨o', hsettles⟩ := ih _ (by omega) hfed (hunit ▸ hmemory) rfl
          refine ⟨o', Settles.of_succ ?_⟩
          simp only [feedFrames_room hmove hroom hmade, hempty, Bool.false_eq_true, if_false]
          exact hsettles

/-- **Feeding one frame** comes to an end. -/
theorem feedAll_settles (hcodec : Digests start source bound) {calls : List StepCall}
    (h : Fed start source calls remaining o)
    (hmemory : memory.Grows o.destination.unit bound) :
    ∃ o', Settles (fun turns => feedAll memory turns remaining o) (.ok () o')
      ∧ o'.destination.unit = o.destination.unit := by
  induction hleft : bound - (givenBy calls).length + remaining.size using Nat.strongRecOn
    generalizing calls remaining o with
  | ind left ih =>
    cases hempty : remaining.isEmpty with
    | true =>
        refine ⟨o, Settles.of_succ ?_, rfl⟩
        simp only [feedAll, hempty, if_true]
        exact Settles.const
    | false =>
        have hpos := size_pos_of_isEmpty hempty
        obtain ⟨s, o₁, calls₁, hmove, hbounded, hgiven, hnext⟩ := h.next hcodec hmemory
        have hsize := remaining.size_drop s.consumed
        rcases hnext with ⟨hfull, hne, o₂, hgrow, hunit, hfed⟩ | ⟨hroom, hprogress, hunit, hfed⟩
        · obtain ⟨o', hsettles, hunit'⟩ := ih _ (by omega) hfed (hunit ▸ hmemory) rfl
          refine ⟨o', Settles.of_succ ?_, hunit'.trans hunit⟩
          simp only [feedAll_full hempty hmove hfull hgrow]
          exact hsettles
        · have hconsumed := hprogress (by omega)
          have hmade : s.madeProgress = true := by simp [Step.madeProgress, hconsumed]
          obtain ⟨o', hsettles, hunit'⟩ := ih _ (by omega) hfed (hunit ▸ hmemory) rfl
          refine ⟨o', Settles.of_succ ?_, hunit'.trans hunit⟩
          simp only [feedAll_room hempty hmove hroom hmade]
          exact hsettles

end OneShot

end Zstandard
