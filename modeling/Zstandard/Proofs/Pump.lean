import Zstandard.Pump
import Zstandard.Proofs.Buffers
import Zstandard.Proofs.Calls

/-!
# What a pump keeps

A pump over observed ends is held against the calls of its codec. Two equations carry everything:

* what was received is what the codec has used, followed by what is pending;
* what the codec has put out is what was accepted, followed by what the destination holds.

`Traced` is what holds of a pump in any case, after a failure too; `Clean` is what holds as long as
nothing has failed. While a pump reads, `Fed` says moreover that each call was fed what comes next.
The loops are followed from a single move (`feed_ensures`, `flush_ensures`, `refill_ensures`) to a
whole operation (`readSource_ensures`, `finish_ensures`, `complete_ensures`).
-/

namespace Zstandard

namespace Pump

variable {κ ε : Type} [Codec κ]

/-- What holds of a pump after some calls of its codec, whatever has failed. -/
structure Traced (start : κ) (calls : List StepCall) (p : Pump κ (Observed ε)) : Prop where
  /-- The calls lead to the codec. -/
  steps : Steps start calls p.codec
  /-- What was received has been used, or is pending. -/
  source : receivedBy p.ends.calls = takenBy calls ++ p.source.pending.toList
  /-- What was accepted is a beginning of the output. -/
  sent : acceptedBy p.ends.calls <+: givenBy calls
  /-- The source keeps to its bounds. -/
  source_fits : p.source.Fits
  /-- The destination keeps to its bounds. -/
  destination_fits : p.destination.Fits

/-- What holds of a pump as long as nothing has failed. -/
structure Clean (start : κ) (calls : List StepCall) (p : Pump κ (Observed ε)) : Prop
    extends Traced start calls p where
  /-- The output was accepted, or is in the destination. -/
  output : givenBy calls = acceptedBy p.ends.calls ++ p.destination.bytes.data.toList
  /-- No call has failed. -/
  succeeded : ∀ c ∈ calls, c.succeeded = true

/-- The ends of `p'` are those of `p` after some calls that are not reads. -/
def Quiet (p p' : Pump κ (Observed ε)) : Prop :=
  ∃ more, p'.ends.calls = p.ends.calls ++ more ∧ ∀ c ∈ more, c.isRead = false

omit [Codec κ] in
theorem Quiet.refl (p : Pump κ (Observed ε)) : Quiet p p := ⟨[], by simp, by simp⟩

omit [Codec κ] in
theorem Quiet.trans {p q r : Pump κ (Observed ε)} (h : Quiet p q) (h' : Quiet q r) :
    Quiet p r := by
  obtain ⟨a, ha, hra⟩ := h
  obtain ⟨b, hb, hrb⟩ := h'
  exact ⟨a ++ b, by rw [hb, ha, List.append_assoc], List.forall_mem_append.mpr ⟨hra, hrb⟩⟩

omit [Codec κ] in
theorem Quiet.of_ends {p p' : Pump κ (Observed ε)} (h : p'.ends = p.ends) : Quiet p p' :=
  ⟨[], by rw [h, List.append_nil], by simp⟩

omit [Codec κ] in
theorem Quiet.received {p p' : Pump κ (Observed ε)} (h : Quiet p p') :
    receivedBy p'.ends.calls = receivedBy p.ends.calls := by
  obtain ⟨more, hmore, hread⟩ := h
  rw [hmore, receivedBy_append, receivedBy_of_no_read hread, List.append_nil]

/-! ## Single moves -/

/-- A step changes the codec and moves bytes from the source to the destination. -/
theorem feed_ensures {start : κ} {calls : List StepCall} {p : Pump κ (Observed ε)}
    (h : Clean start calls p) :
    Ensures feed p
      (fun s p' => Clean start
          (calls ++ [⟨p.source.pending, p.destination.free, .feed, .ok s⟩]) p'
        ∧ Codec.step p.codec p.source.pending p.destination.free .feed = (.ok s, p'.codec)
        ∧ p'.ends = p.ends ∧ p'.source = p.source.consume s.consumed
        ∧ p'.destination = p.destination.append s.produced)
      (fun _ p' => ∃ e, Traced start
          (calls ++ [⟨p.source.pending, p.destination.free, .feed, .error e⟩]) p'
        ∧ p'.ends = p.ends) := by
  obtain ⟨codec, ends, source, destination, readTotal, writtenTotal, log⟩ := p
  refine Ensures.intro (fun s p' hw => ?_) (fun e p' hw => ?_)
  · dsimp only [feed] at hw
    split at hw <;> cases hw
    next codec' hstep =>
    have hle := Codec.consumed_le hstep
    refine ⟨⟨⟨h.steps.snoc hstep, ?_, ?_, h.source_fits.consume hle, ?_⟩, ?_, ?_⟩, hstep, rfl, rfl,
      rfl⟩
    · rw [h.source, SourceBuffer.toList_pending_consume, takenBy_snoc_ok, List.append_assoc,
        List.take_append_drop]
    · exact h.sent.trans (by simp)
    · exact h.destination_fits.append (Codec.produced_le hstep)
    · rw [givenBy_snoc_ok, h.output, DestinationBuffer.toList_append, List.append_assoc]
    · exact succeeded_snoc h.succeeded
  · dsimp only [feed] at hw
    split at hw <;> cases hw
    next e' codec' hstep =>
    -- a failed step uses nothing and puts out nothing, but it is a call
    refine ⟨e', ⟨h.steps.snoc hstep, ?_, ?_, h.source_fits, h.destination_fits⟩, rfl⟩
    · rw [h.source]
      simp [StepCall.taken]
    · exact h.sent.trans (by simp)

/-- A closing step changes the codec and fills the destination. -/
theorem close_ensures {start : κ} {calls : List StepCall} {p : Pump κ (Observed ε)}
    (h : Clean start calls p) :
    Ensures close p
      (fun s p' => Clean start (calls ++ [⟨.empty, p.destination.free, .finish, .ok s⟩]) p'
        ∧ Codec.step p.codec .empty p.destination.free .finish = (.ok s, p'.codec)
        ∧ p'.ends = p.ends ∧ p'.source = p.source
        ∧ p'.destination = p.destination.append s.produced)
      (fun _ p' => ∃ e, Traced start
          (calls ++ [⟨.empty, p.destination.free, .finish, .error e⟩]) p'
        ∧ p'.ends = p.ends) := by
  obtain ⟨codec, ends, source, destination, readTotal, writtenTotal, log⟩ := p
  have hempty : ∀ room result, StepCall.taken ⟨.empty, room, .finish, result⟩ = [] :=
    fun room result => StepCall.taken_of_size Slice.size_empty
  refine Ensures.intro (fun s p' hw => ?_) (fun e p' hw => ?_)
  · dsimp only [close] at hw
    split at hw <;> cases hw
    next codec' hstep =>
    refine ⟨⟨⟨h.steps.snoc hstep, ?_, ?_, h.source_fits, ?_⟩, ?_, ?_⟩, hstep, rfl, rfl, rfl⟩
    · rw [h.source]
      simp [hempty]
    · exact h.sent.trans (by simp)
    · exact h.destination_fits.append (Codec.produced_le hstep)
    · rw [givenBy_snoc_ok, h.output, DestinationBuffer.toList_append, List.append_assoc]
    · exact succeeded_snoc h.succeeded
  · dsimp only [close] at hw
    split at hw <;> cases hw
    next e' codec' hstep =>
    refine ⟨e', ⟨h.steps.snoc hstep, ?_, ?_, h.source_fits, h.destination_fits⟩, rfl⟩
    · rw [h.source]
      simp [hempty]
    · exact h.sent.trans (by simp)

/-- A flush empties the destination, which was not empty. -/
theorem flush_ensures [Writer ε] {start : κ} {calls : List StepCall} {p : Pump κ (Observed ε)}
    (turns : Nat) (h : Clean start calls p) :
    Ensures (flush turns) p
      (fun _ p' => Clean start calls p' ∧ Quiet p p' ∧ p'.source = p.source
        ∧ p'.destination = p.destination.rewind ∧ p.destination.bytes.size ≠ 0)
      (fun _ p' => Traced start calls p' ∧ Quiet p p') := by
  obtain ⟨codec, ends, source, destination, readTotal, writtenTotal, log⟩ := p
  obtain ⟨more, hcalls, hread, hpre, hok, herror⟩ := destination.flush_calls turns ends
  have hrec : receivedBy (ends.calls ++ more) = receivedBy ends.calls := by
    rw [receivedBy_append, receivedBy_of_no_read hread, List.append_nil]
  have hsent : acceptedBy (ends.calls ++ more) <+: givenBy calls := by
    rw [acceptedBy_append, h.output]
    exact (List.prefix_append_right_inj _).mpr hpre
  refine Ensures.intro (fun _ p' hw => ?_) (fun x p' hw => ?_)
  · dsimp only [flush] at hw
    split at hw <;> cases hw
    next destination' ends' heq =>
    rw [heq] at hcalls hok
    obtain ⟨hne, hd, hacc⟩ := hok rfl
    dsimp only at hcalls hd
    subst hd
    refine ⟨⟨⟨h.steps, ?_, ?_, h.source_fits, DestinationBuffer.fits_rewind _⟩, ?_,
      h.succeeded⟩, ⟨more, hcalls, hread⟩, rfl, rfl, hne⟩
    · rw [hcalls, hrec]
      exact h.source
    · rw [hcalls]
      exact hsent
    · rw [hcalls, acceptedBy_append, hacc, DestinationBuffer.toList_rewind, List.append_nil]
      exact h.output
  · dsimp only [flush] at hw
    split at hw <;> cases hw
    next destination' ends' heq =>
    -- the destination is as it was, whatever the writer took of it before it failed
    rw [heq] at hcalls herror
    have hd := herror _ rfl
    dsimp only at hcalls hd
    subst hd
    refine ⟨⟨h.steps, ?_, ?_, h.source_fits, h.destination_fits⟩, more, hcalls, hread⟩
    · rw [hcalls, hrec]
      exact h.source
    · rw [hcalls]
      exact hsent

/-- A refill reads behind what is pending. -/
theorem refill_ensures [Reader ε] {start : κ} {calls : List StepCall} {p : Pump κ (Observed ε)}
    (turns : Nat) (h : Clean start calls p) :
    Ensures (refill turns) p
      (fun result p' => Clean start calls p' ∧ p'.destination = p.destination
        ∧ ∃ more, p'.ends.calls = p.ends.calls ++ more
          ∧ SourceBuffer.Refilled p.source p'.source more (.ok result))
      (fun x p' => Traced start calls p' ∧ p'.destination = p.destination
        ∧ ∃ more, p'.ends.calls = p.ends.calls ++ more
          ∧ SourceBuffer.Refilled p.source p'.source more (.error x)) := by
  obtain ⟨codec, ends, source, destination, readTotal, writtenTotal, log⟩ := p
  obtain ⟨more, hcalls, hmore⟩ := SourceBuffer.refill_refilled turns ends h.source_fits
  have hacc : acceptedBy (ends.calls ++ more) = acceptedBy ends.calls := by
    rw [acceptedBy_append, acceptedBy_of_reads hmore.reads, List.append_nil]
  have hsource := hmore.pending
  -- whatever the result is, the pump has the source and the ends that the refill left
  have key : ∀ source' ends' total', (source.refill turns ends).2 = (source', ends') →
      Clean start calls ⟨codec, ends', source', destination, total', writtenTotal, log⟩ := by
    intro source' ends' total' heq
    rw [heq] at hcalls hmore hsource
    dsimp only at hcalls hsource
    refine ⟨⟨h.steps, ?_, ?_, hmore.fits, h.destination_fits⟩, ?_, h.succeeded⟩
    · rw [hcalls, receivedBy_append, h.source, hsource, List.append_assoc]
    · rw [hcalls, hacc]
      exact h.sent
    · rw [hcalls, hacc]
      exact h.output
  refine Ensures.intro (fun result p' hw => ?_) (fun x p' hw => ?_)
  · dsimp only [refill] at hw
    split at hw <;> cases hw
    all_goals
      next source' ends' heq =>
      rw [heq] at hcalls hmore
      exact ⟨key _ _ _ (by rw [heq]), rfl, more, hcalls, hmore⟩
  · dsimp only [refill] at hw
    split at hw <;> cases hw
    next source' ends' heq =>
    rw [heq] at hcalls hmore
    exact ⟨(key _ _ readTotal (by rw [heq])).toTraced, rfl, more, hcalls, hmore⟩

/-! ## Reading -/

/-- A clean pump that has only been fed what it received, in order, and has room for more. -/
structure Fed (start : κ) (calls : List StepCall) (p : Pump κ (Observed ε)) : Prop
    extends Clean start calls p where
  /-- Each call was offered what comes next. -/
  feeds : Each (Feeds (receivedBy p.ends.calls)) calls
  /-- The destination is not full. -/
  room : p.destination.isFull = false

/-- A pump that may have failed, and has only been fed what it received, in order. -/
def Stopped (start : κ) (p : Pump κ (Observed ε)) : Prop :=
  ∃ calls, Traced start calls p ∧ Each (Feeds (receivedBy p.ends.calls)) calls

/-- The last call left room, and what it left of its input is what is pending. -/
def Paused (calls : List StepCall) (p : Pump κ (Observed ε)) : Prop :=
  ∀ last ∈ calls.getLast?,
    last.LeavesRoom ∧ last.input.toList = last.taken ++ p.source.pending.toList

/-- A step is fed what comes next. -/
theorem Fed.feeds_next {start : κ} {calls : List StepCall} {p : Pump κ (Observed ε)}
    (h : Fed start calls p) (result : Except Error Step) :
    Each (Feeds (receivedBy p.ends.calls))
      (calls ++ [⟨p.source.pending, p.destination.free, .feed, result⟩]) := by
  refine each_snoc.mpr ⟨h.feeds, rfl, h.destination_fits.free_pos_iff.mpr h.room, ?_⟩
  exact h.source ▸ List.prefix_refl _

/-- A destination that was written out has room again. -/
theorem Clean.fed_of_rewind {start : κ} {calls : List StepCall} {p p' : Pump κ (Observed ε)}
    (h : Clean start calls p') (hfeeds : Each (Feeds (receivedBy p.ends.calls)) calls)
    (hquiet : Quiet p p') (hdest : p'.destination = p.destination.rewind)
    (hfits : p.destination.Fits) (hne : p.destination.bytes.size ≠ 0) : Fed start calls p' := by
  refine ⟨h, by rw [hquiet.received]; exact hfeeds, ?_⟩
  rw [hdest]
  exact hfits.isFull_rewind hne

/-- **Steps until there is room.** The last step leaves room, nothing is read, and what is pending
is an end of what was. -/
theorem feedPending_ensures [Writer ε] {start : κ} : ∀ (turns : Nat) (progress : Bool)
    {calls : List StepCall} {p : Pump κ (Observed ε)}, Fed start calls p →
    Ensures (feedPending turns progress) p
      (fun _ p' => Quiet p p' ∧ p'.source.pending.toList <:+ p.source.pending.toList
        ∧ ∃ calls', Fed start calls' p' ∧ Paused calls' p')
      (fun _ p' => Stopped start p') := by
  intro turns
  -- `Fed` is the invariant; the last turn adds `Paused`, which the caller needs at the end
  induction turns with
  | zero =>
      intro progress calls p h
      exact Ensures.throw ⟨calls, h.toTraced, h.feeds⟩
  | succ turns ih =>
      intro progress calls p h
      refine Ensures.bind ((feed_ensures h.toClean).mono (fun _ _ hq => hq) ?_) ?_
      · rintro _ p₁ ⟨e, htr, hends⟩
        refine ⟨_, htr, ?_⟩
        rw [hends]
        exact h.feeds_next (.error e)
      · rintro s p₁ ⟨hclean, hstep, hends, hsource, hdest⟩
        have hfeeds := h.feeds_next (.ok s)
        rw [← hends] at hfeeds
        have hsuffix : p₁.source.pending.toList <:+ p.source.pending.toList := by
          rw [hsource, SourceBuffer.toList_pending_consume]
          exact List.drop_suffix _ _
        show Ensures (if p₁.destination.isFull = true then _ else _) p₁ _ _
        split
        · -- a full destination is written out before the next step
          refine Ensures.bind ((flush_ensures turns hclean).mono (fun _ _ hq => hq) ?_) ?_
          · rintro _ p₂ ⟨htr, hquiet⟩
            exact ⟨_, htr, by rw [hquiet.received]; exact hfeeds⟩
          · rintro _ p₂ ⟨hclean₂, hquiet, hsource₂, hdest₂, hne⟩
            have hfed := hclean₂.fed_of_rewind hfeeds hquiet hdest₂ hclean.destination_fits hne
            refine (ih _ hfed).mono ?_ (fun _ _ hx => hx)
            rintro _ p₃ ⟨hquiet₃, hsuffix₃, hpost⟩
            rw [hsource₂] at hsuffix₃
            exact ⟨((Quiet.of_ends hends).trans hquiet).trans hquiet₃, hsuffix₃.trans hsuffix,
              hpost⟩
        · next hfull =>
          have hroom : p₁.destination.isFull = false := by simpa using hfull
          refine Ensures.pure ⟨Quiet.of_ends hends, hsuffix, _, ⟨hclean, hfeeds, hroom⟩, ?_⟩
          refine forall_last_snoc ⟨?_, ?_⟩
          · rw [hdest] at hroom
            exact (DestinationBuffer.isFull_append h.destination_fits
              (Codec.produced_le hstep)).mp hroom
          · rw [hsource, SourceBuffer.toList_pending_consume]
            exact (List.take_append_drop _ _).symm

/-- **Reading to the end.** What the reader gave has been fed, or is pending, and the reader has
told that there is no more. -/
theorem feedReader_ensures [Reader ε] [Writer ε] {start : κ} : ∀ (turns : Nat) (fed : Bool)
    {calls : List StepCall} {p : Pump κ (Observed ε)}, Fed start calls p → Paused calls p →
    Unended p.ends.calls →
    Ensures (feedReader turns fed) p
      (fun _ p' => Exhausted p'.ends.calls ∧ ∃ calls', Fed start calls' p' ∧ Paused calls' p')
      (fun _ p' => Stopped start p') := by
  intro turns
  induction turns with
  | zero =>
      intro fed calls p h _ _
      exact Ensures.throw ⟨calls, h.toTraced, h.feeds⟩
  | succ turns ih =>
      intro fed calls p h hpaused hunended
      -- reading more keeps the calls in order, since it only adds to the end
      have hmono : ∀ {p' : Pump κ (Observed ε)} {more : List EndCall},
          p'.ends.calls = p.ends.calls ++ more →
          Each (Feeds (receivedBy p'.ends.calls)) calls := by
        intro p' more hmore
        rw [hmore, receivedBy_append]
        exact h.feeds.mono fun _ _ _ _ hf => hf.mono (List.prefix_append _ _)
      refine Ensures.bind ((refill_ensures turns h.toClean).mono (fun _ _ hq => hq) ?_) ?_
      · rintro _ p₁ ⟨htr, _, more, hmore, _⟩
        exact ⟨calls, htr, hmono hmore⟩
      · rintro result p₁ ⟨hclean, hdest, more, hmore, hfilled⟩
        have hroom : p₁.destination.isFull = false := by rw [hdest]; exact h.room
        have hfed : Fed start calls p₁ := ⟨hclean, hmono hmore, hroom⟩
        cases result with
        | read n =>
            refine Ensures.bind (feedPending_ensures turns false hfed) ?_
            rintro _ p₂ ⟨⟨quiet, hquiet, hread⟩, _, calls', hfed', hpaused'⟩
            refine ih true hfed' hpaused' ?_
            rw [hquiet, hmore]
            exact (hunended.append (hfilled.read n rfl).2).append (unended_of_no_read hread)
        | finished =>
            obtain ⟨hnil, hex⟩ := hfilled.finished rfl
            refine Ensures.pure ⟨?_, calls, hfed, ?_⟩
            · rw [hmore]
              exact hunended.append_exhausted hex
            · intro last hlast
              rw [hfilled.pending, hnil, List.append_nil]
              exact hpaused last hlast

/-- **Feeding the remainder.** Nothing is pending any more, and no more is read. -/
theorem feedRemainder_ensures [Writer ε] {start : κ} : ∀ (turns : Nat) (fed : Bool)
    {calls : List StepCall} {p : Pump κ (Observed ε)}, Fed start calls p → Paused calls p →
    Ensures (feedRemainder turns fed) p
      (fun _ p' => Quiet p p' ∧ p'.source.pending.toList = []
        ∧ ∃ calls', Fed start calls' p' ∧ Paused calls' p')
      (fun _ p' => Stopped start p') := by
  intro turns
  induction turns with
  | zero =>
      intro fed calls p h _
      exact Ensures.throw ⟨calls, h.toTraced, h.feeds⟩
  | succ turns ih =>
      intro fed calls p h hpaused
      show Ensures (if p.source.pending.isEmpty = true then _ else _) p _ _
      split
      · next hempty =>
        exact Ensures.pure
          ⟨Quiet.refl p, p.source.isEmpty_pending_iff.mp hempty, calls, h, hpaused⟩
      · refine Ensures.bind (feedPending_ensures turns false h) ?_
        rintro progress p₁ ⟨hquiet, _, calls₁, hfed, hpaused₁⟩
        cases progress with
        | true =>
            refine (ih true hfed hpaused₁).mono ?_ (fun _ _ hx => hx)
            rintro _ p₂ ⟨hquiet₂, hpost⟩
            exact ⟨hquiet.trans hquiet₂, hpost⟩
        -- a round without progress is an error, and stops the pump
        | false => exact Ensures.throw ⟨calls₁, hfed.toTraced, hfed.feeds⟩

/-- **Reading the source.** The codec has been fed all that was received, the reader has no more,
and the last call left room and none of its input. -/
theorem readSource_ensures [Reader ε] [Writer ε] {start : κ} (turns : Nat)
    {p : Pump κ (Observed ε)} (h : Fed start [] p) (hunended : Unended p.ends.calls) :
    Ensures (readSource turns) p
      (fun _ p' => Exhausted p'.ends.calls ∧ p'.source.pending.toList = []
        ∧ ∃ calls, Fed start calls p' ∧ Quiescent calls)
      (fun _ p' => Stopped start p') := by
  have hquiescent : ∀ {calls : List StepCall} {p : Pump κ (Observed ε)}, Paused calls p →
      p.source.pending.toList = [] → Quiescent calls := by
    intro calls p hpaused hnil last hlast
    obtain ⟨hroom, hinput⟩ := hpaused last hlast
    rw [hnil, List.append_nil] at hinput
    exact ⟨hroom, hinput.symm⟩
  have hpaused : Paused [] p := by
    intro last hlast
    simp at hlast
  refine Ensures.bind (feedReader_ensures turns false h hpaused hunended) ?_
  rintro fed p₁ ⟨hex, calls₁, hfed₁, hpaused₁⟩
  refine Ensures.bind (feedRemainder_ensures turns fed hfed₁ hpaused₁) ?_
  rintro fed p₂ ⟨⟨quiet, hquiet, hread⟩, hnil, calls₂, hfed₂, hpaused₂⟩
  have hex₂ : Exhausted p₂.ends.calls := hquiet ▸ hex.append hread
  cases fed with
  | true => exact Ensures.pure ⟨hex₂, hnil, calls₂, hfed₂, hquiescent hpaused₂ hnil⟩
  -- a codec that was fed nothing is stepped once, so that it can object to an empty source
  | false =>
      refine Ensures.bind (feedPending_ensures turns false hfed₂) ?_
      rintro _ p₃ ⟨⟨quiet₃, hquiet₃, hread₃⟩, hsuffix, calls₃, hfed₃, hpaused₃⟩
      have hnil₃ : p₃.source.pending.toList = [] := List.suffix_nil.mp (hnil ▸ hsuffix)
      have hex₃ : Exhausted p₃.ends.calls := hquiet₃ ▸ hex₂.append hread₃
      exact Ensures.pure ⟨hex₃, hnil₃, calls₃, hfed₃, hquiescent hpaused₃ hnil₃⟩

/-! ## Writing out -/

/-- **Completing.** The writer has accepted all output. -/
theorem complete_ensures [Writer ε] {start : κ} {calls : List StepCall}
    {p : Pump κ (Observed ε)} (turns : Nat) (h : Clean start calls p) :
    Ensures (complete turns) p
      (fun _ p' => p'.codec = p.codec ∧ Quiet p p' ∧ acceptedBy p'.ends.calls = givenBy calls)
      (fun _ p' => p'.codec = p.codec) := by
  obtain ⟨codec, ends, source, destination, readTotal, writtenTotal, log⟩ := p
  have hout := h.output
  refine Ensures.intro (fun _ p' hw => ?_) (fun x p' hw => ?_)
  · dsimp only [complete] at hw
    split at hw
    · cases hw
    next destination' ends' heq =>
    split at hw <;> cases hw
    next ends'' hflush =>
    -- what is left was written, and the flush wrote nothing
    have hwritten : ∃ more, ends'.calls = ends.calls ++ more ∧ (∀ c ∈ more, c.isRead = false)
        ∧ acceptedBy more = destination.bytes.data.toList := by
      unfold DestinationBuffer.writeRemaining at heq
      split at heq
      · next hzero =>
        cases heq
        exact ⟨[], by simp, by simp, (List.length_eq_zero_iff.mp hzero).symm⟩
      · obtain ⟨more, hcalls, hread, -, hok, -⟩ := destination.flush_calls turns ends
        rw [heq] at hcalls hok
        exact ⟨more, hcalls, hread, (hok rfl).2.2⟩
    obtain ⟨more, hcalls, hread, hacc⟩ := hwritten
    obtain ⟨result, inner, hinner⟩ : ∃ result inner, Writer.flush ends'.ends = (result, inner) :=
      ⟨_, _, rfl⟩
    rw [Observed.flush_of hinner] at hflush
    cases hflush
    refine ⟨rfl, ⟨more ++ [.flush (.ok ())], by simp [hcalls], ?_⟩, ?_⟩
    · exact List.forall_mem_append.mpr ⟨hread, List.forall_mem_singleton.mpr rfl⟩
    · rw [hout, hcalls]
      simp [hacc, EndCall.accepted]
  · dsimp only [complete] at hw
    split at hw
    · cases hw
      rfl
    · split at hw <;> cases hw
      rfl

/-- The end of the input is asked for, and changes nothing. -/
theorem endOfInput_ensures (p : Pump κ ε) :
    Ensures endOfInput p
      (fun _ p' => p' = p ∧ Codec.endOfInput p.codec = .ok ())
      (fun x p' => p' = p ∧ ∃ e, x = .failed e ∧ Codec.endOfInput p.codec = .error e) := by
  refine Ensures.intro (fun _ p' hw => ?_) (fun x p' hw => ?_)
  · unfold endOfInput at hw
    split at hw <;> cases hw
    next h => exact ⟨rfl, h⟩
  · unfold endOfInput at hw
    split at hw <;> cases hw
    next e h => exact ⟨rfl, e, rfl, h⟩

omit [Codec κ] in
/-- A new pump holds what it was given, and two empty buffers. -/
theorem create_eq {memory : Memory} {codec : κ} {ends : ε} {log : Log}
    {sourceLength destinationLength : Nat} {p : Pump κ ε}
    (h : create memory codec ends log sourceLength destinationLength = .ok p) :
    p = ⟨codec, ends, ⟨.empty, 0, sourceLength⟩, ⟨.empty, destinationLength⟩, 0, 0, log⟩ := by
  unfold create at h
  split at h
  · cases h
  next source hsource =>
  split at h
  · cases h
  next destination hdest =>
  cases h
  rw [SourceBuffer.create_eq hsource, DestinationBuffer.create_eq hdest]

/-- A new pump with room in its destination has been fed nothing. -/
theorem fed_new (codec : κ) (ends : ε) (log : Log) (sourceLength : Nat) {destinationLength : Nat}
    (hroom : 0 < destinationLength) :
    Fed codec [] (⟨codec, .new ends, ⟨.empty, 0, sourceLength⟩, ⟨.empty, destinationLength⟩, 0, 0,
      log⟩ : Pump κ (Observed ε)) where
  steps := .nil
  source := rfl
  sent := List.nil_prefix
  source_fits := ⟨Nat.le_refl 0, Nat.zero_le _⟩
  destination_fits := Nat.zero_le _
  output := rfl
  succeeded := by simp
  feeds := each_nil
  room := beq_eq_false_iff_ne.mpr (Nat.ne_of_lt hroom)

end Pump

end Zstandard
