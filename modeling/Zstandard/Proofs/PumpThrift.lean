import Zstandard.Proofs.Pump
import Zstandard.Proofs.Thrift

/-!
# Pumps do not spin

The steps of a pump are paid for on credit. A step is made on one unit of credit (`Solvent.feed`,
`Solvent.close`), and a flush gives it back, because it writes out at least one byte
(`Solvent.flush`). So a loop that steps and flushes needs one unit in all
(`feedPending_solvent`, `finish_solvent`), and what is left is where the units come from: each read
brings a byte for one (`feedReader_solvent`), and so does each round of the remainder, which has to
make progress (`feedRemainder_solvent`). One more is needed for the first step if nothing was read,
and one to close the frame.
-/

namespace Zstandard

namespace Pump

variable {κ ε : Type} [Codec κ]

/-- The steps and the traffic up to some state. -/
def spent (calls : List StepCall) (p : Pump κ (Observed ε)) : Nat :=
  calls.length + traffic p.ends.calls

/-- What holds of a pump whose steps have been paid for, whatever has failed. -/
structure Paid (start : κ) (calls : List StepCall) (p : Pump κ (Observed ε)) : Prop where
  /-- The calls lead to the codec. -/
  steps : Steps start calls p.codec
  /-- Each was paid for when it was made. -/
  thrifty : Each (Thrifty (receivedBy p.ends.calls)) calls
  /-- What was accepted is a beginning of the output. -/
  sent : acceptedBy p.ends.calls <+: givenBy calls

/-- What a pump whose steps have been paid for has spent. -/
def Spends (start : κ) (n : Nat) (p : Pump κ (Observed ε)) : Prop :=
  ∃ calls, Paid start calls p ∧ n = spent calls p

/-- A pump whose steps have been paid for, with some credit. What waits in the destination is not
counted as put out yet. -/
structure Solvent (start : κ) (calls : List StepCall) (credit : Nat)
    (p : Pump κ (Observed ε)) : Prop extends Clean start calls p where
  /-- Each step was paid for when it was made. -/
  thrifty : Each (Thrifty (receivedBy p.ends.calls)) calls
  /-- There are no more than the output that was written out and the credit pay for. -/
  balance : calls.length + p.destination.bytes.size ≤ (givenBy calls).length + credit
  /-- The destination has a capacity. -/
  capacity : 0 < p.destination.capacity

/-- The credit that a pump may be given: two units for each byte received or put out, and two. -/
def Granted (credit : Nat) (calls : List StepCall) (p : Pump κ (Observed ε)) : Prop :=
  credit ≤ 2 * ((receivedBy p.ends.calls).length + (givenBy calls).length) + 2

/-- `p'` is `p` after some more steps and calls, none of which was a read. -/
structure Onward (start : κ) (credit : Nat) (calls more : List StepCall)
    (p p' : Pump κ (Observed ε)) : Prop extends Solvent start (calls ++ more) credit p' where
  /-- Nothing was read. -/
  received : receivedBy p'.ends.calls = receivedBy p.ends.calls
  /-- The traffic has not become less. -/
  traffic : traffic p.ends.calls ≤ traffic p'.ends.calls

section Credit

variable {start : κ} {calls more : List StepCall} {credit credit' : Nat}
  {p p' : Pump κ (Observed ε)}

theorem Solvent.paid (h : Solvent start calls credit p) : Paid start calls p :=
  ⟨h.steps, h.thrifty, h.sent⟩

theorem Solvent.mono (h : Solvent start calls credit p) (hle : credit ≤ credit') :
    Solvent start calls credit' p :=
  { h with balance := Nat.le_trans h.balance (Nat.add_le_add_left hle _) }

/-- What was received was used, or is pending. -/
theorem Solvent.length_received (h : Solvent start calls credit p) :
    (receivedBy p.ends.calls).length = (takenBy calls).length + p.source.pending.size := by
  rw [h.source, List.length_append, Slice.length_toList]

theorem Paid.spends (h : Paid start calls p) : Spends start (spent calls p) p := ⟨calls, h, rfl⟩

theorem Onward.spent_le (h : Onward start credit calls more p p') :
    spent calls p + more.length ≤ spent (calls ++ more) p' := by
  have := h.traffic
  rw [spent, spent, List.length_append]
  omega

theorem Onward.trans {more' : List StepCall} {p'' : Pump κ (Observed ε)}
    (h : Onward start credit calls more p p')
    (h' : Onward start credit' (calls ++ more) more' p' p'') :
    Onward start credit' calls (more ++ more') p p'' where
  toSolvent := by
    rw [← List.append_assoc]
    exact h'.toSolvent
  received := h'.received.trans h.received
  traffic := Nat.le_trans h.traffic h'.traffic

/-- What was granted stays granted. -/
theorem Granted.onward (hgranted : Granted credit calls p)
    (h : Onward start credit' calls more p p') : Granted credit (calls ++ more) p' := by
  unfold Granted at hgranted ⊢
  rw [h.received, givenBy_append, List.length_append]
  omega

end Credit

/-! ## Single moves -/

theorem feed_fails (p : Pump κ ε) :
    Ensures feed p (fun _ _ => True) (fun x _ => x ≠ .outOfTurns) := by
  obtain ⟨codec, ends, source, destination, readTotal, writtenTotal, log⟩ := p
  refine Ensures.intro (fun _ _ _ => trivial) (fun x p' hw => ?_)
  dsimp only [feed] at hw
  split at hw <;> cases hw
  simp

theorem close_fails (p : Pump κ ε) :
    Ensures close p (fun _ _ => True) (fun x _ => x ≠ .outOfTurns) := by
  obtain ⟨codec, ends, source, destination, readTotal, writtenTotal, log⟩ := p
  refine Ensures.intro (fun _ _ _ => trivial) (fun x p' hw => ?_)
  dsimp only [close] at hw
  split at hw <;> cases hw
  simp

omit [Codec κ] in
theorem flush_busy [Writer ε] (turns : Nat) (p : Pump κ (Observed ε)) :
    Ensures (flush turns) p (fun _ p' => traffic p.ends.calls ≤ traffic p'.ends.calls)
      (fun x p' => Busy turns p.ends.calls p'.ends.calls
        (.error x : Except (Halt Error) Unit)) := by
  obtain ⟨codec, ends, source, destination, readTotal, writtenTotal, log⟩ := p
  have hbusy := destination.flush_busy turns ends
  refine Ensures.intro (fun _ p' hw => ?_) (fun x p' hw => ?_)
  all_goals
    dsimp only [flush] at hw
    split at hw <;> cases hw
  · next heq =>
    rw [heq] at hbusy
    exact hbusy.le
  · next heq =>
    rw [heq] at hbusy
    exact hbusy

omit [Codec κ] in
theorem refill_busy [Reader ε] (turns : Nat) (p : Pump κ (Observed ε)) :
    Ensures (refill turns) p (fun _ p' => traffic p.ends.calls ≤ traffic p'.ends.calls)
      (fun x p' => Busy turns p.ends.calls p'.ends.calls
        (.error x : Except (Halt Error) Refill)) := by
  obtain ⟨codec, ends, source, destination, readTotal, writtenTotal, log⟩ := p
  have hbusy := source.refill_busy turns ends
  refine Ensures.intro (fun _ p' hw => ?_) (fun x p' hw => ?_)
  all_goals
    dsimp only [refill] at hw
    split at hw <;> cases hw
  · next heq =>
    rw [heq] at hbusy
    exact hbusy.le
  · next heq =>
    rw [heq] at hbusy
    exact hbusy.le
  · next heq =>
    rw [heq] at hbusy
    exact hbusy

section Moves

variable {start : κ} {calls : List StepCall} {credit : Nat} {p : Pump κ (Observed ε)}

/-- A step on credit that was granted is paid for. -/
theorem Solvent.thrifty_snoc (h : Solvent start calls credit p)
    (hgranted : Granted (credit + 1) calls p) {input : Slice}
    (hoffered : takenBy calls ++ input.toList = receivedBy p.ends.calls) (room : Nat)
    (directive : Directive) (result : Except Error Step) :
    Each (Thrifty (receivedBy p.ends.calls)) (calls ++ [⟨input, room, directive, result⟩]) := by
  refine each_snoc.mpr ⟨h.thrifty, hoffered ▸ List.prefix_refl _, ?_⟩
  have hbalance := h.balance
  unfold Granted at hgranted
  dsimp only
  rw [hoffered]
  omega

/-- A step uses up one unit of credit. -/
theorem Solvent.stepped {p' : Pump κ (Observed ε)} {s : Step} {input : Slice} {room : Nat}
    {directive : Directive} (h : Solvent start calls credit p)
    (hclean : Clean start (calls ++ [⟨input, room, directive, .ok s⟩]) p')
    (hthrifty : Each (Thrifty (receivedBy p.ends.calls))
      (calls ++ [⟨input, room, directive, .ok s⟩]))
    (hends : p'.ends = p.ends) (hdest : p'.destination = p.destination.append s.produced) :
    Onward start (credit + 1) calls [⟨input, room, directive, .ok s⟩] p p' where
  toClean := hclean
  thrifty := by
    rw [hends]
    exact hthrifty
  balance := by
    have hbalance := h.balance
    rw [length_givenBy_snoc_ok, hdest, DestinationBuffer.size_append, List.length_append,
      List.length_singleton]
    omega
  capacity := by
    rw [hdest]
    exact h.capacity
  received := by rw [hends]
  traffic := Nat.le_of_eq (by rw [hends])

/-- A step that feeds the codec. -/
theorem Solvent.feed (h : Solvent start calls credit p) (hgranted : Granted (credit + 1) calls p)
    (due : Nat) :
    Ensures feed p
      (fun s p' => ∃ call, Onward start (credit + 1) calls [call] p p'
        ∧ (s.madeProgress = true → 0 < call.taken.length + call.given.length))
      (fun x p' => Ceased (Spends start) due x p') := by
  have hthrifty := h.thrifty_snoc hgranted h.source.symm p.destination.free .feed
  refine ((feed_ensures h.toClean).and (feed_fails p)).mono ?_ ?_
  · intro s p' hfed
    obtain ⟨⟨hclean, hstep, hends, -, hdest⟩, -⟩ := hfed
    refine ⟨_, h.stepped hclean (hthrifty _) hends hdest, fun hprogress => ?_⟩
    rw [length_taken hstep]
    show 0 < s.consumed + s.produced.size
    simp only [Step.madeProgress, Bool.or_eq_true, bne_iff_ne] at hprogress
    omega
  · intro x p' hfailed
    obtain ⟨⟨e, htraced, hends⟩, hx⟩ := hfailed
    have hpaid : Paid start (calls ++ [_]) p' :=
      ⟨htraced.steps, by rw [hends]; exact hthrifty _, htraced.sent⟩
    exact .of_ne hpaid.spends hx

/-- A step that closes the frame, when all that was received has been used. -/
theorem Solvent.close (h : Solvent start calls credit p) (hgranted : Granted (credit + 1) calls p)
    (hnil : p.source.pending.toList = []) (due : Nat) :
    Ensures close p
      (fun _ p' => ∃ call, Onward start (credit + 1) calls [call] p p' ∧ p'.source = p.source)
      (fun x p' => Ceased (Spends start) due x p') := by
  have hoffered : takenBy calls ++ Slice.empty.toList = receivedBy p.ends.calls := by
    rw [h.source, hnil]
    rfl
  have hthrifty := h.thrifty_snoc hgranted hoffered p.destination.free .finish
  refine ((close_ensures h.toClean).and (close_fails p)).mono ?_ ?_
  · intro s p' hclosed
    obtain ⟨⟨hclean, -, hends, hsource, hdest⟩, -⟩ := hclosed
    exact ⟨_, h.stepped hclean (hthrifty _) hends hdest, hsource⟩
  · intro x p' hfailed
    obtain ⟨⟨e, htraced, hends⟩, hx⟩ := hfailed
    have hpaid : Paid start (calls ++ [_]) p' :=
      ⟨htraced.steps, by rw [hends]; exact hthrifty _, htraced.sent⟩
    exact .of_ne hpaid.spends hx

/-- A flush gives one unit of credit back. -/
theorem Solvent.flush [Writer ε] (turns : Nat) (h : Solvent start calls (credit + 1) p) :
    Ensures (flush turns) p
      (fun _ p' => Onward start credit calls [] p p' ∧ p'.source = p.source)
      (fun x p' => Ceased (Spends start) (spent calls p + turns) x p') := by
  refine ((flush_ensures turns h.toClean).and (flush_busy turns p)).mono ?_ ?_
  · intro _ p' hflushed
    obtain ⟨⟨hclean, hquiet, hsource, hdest, hne⟩, htraffic⟩ := hflushed
    have hbalance := h.balance
    refine ⟨⟨?_, hquiet.received, htraffic⟩, hsource⟩
    rw [List.append_nil]
    refine ⟨hclean, ?_, ?_, ?_⟩
    · rw [hquiet.received]
      exact h.thrifty
    · -- there was at least one byte to write out
      rw [hdest]
      show calls.length + 0 ≤ _
      omega
    · rw [hdest]
      exact h.capacity
  · intro x p' hfailed
    obtain ⟨⟨htraced, hquiet⟩, hbusy⟩ := hfailed
    have hpaid : Paid start calls p' :=
      ⟨htraced.steps, by rw [hquiet.received]; exact h.thrifty, htraced.sent⟩
    refine ⟨_, hpaid.spends, fun hx => ?_⟩
    have := hbusy.turns (congrArg Except.error hx)
    unfold spent
    omega

/-- A read needs no credit. If it gives something, that is at least one byte. -/
theorem Solvent.refill [Reader ε] (turns : Nat) (h : Solvent start calls credit p) :
    Ensures (refill turns) p
      (fun result p' => Solvent start calls credit p' ∧ spent calls p ≤ spent calls p'
        ∧ (receivedBy p.ends.calls).length ≤ (receivedBy p'.ends.calls).length
        ∧ (∀ n, result = .read n →
          (receivedBy p.ends.calls).length < (receivedBy p'.ends.calls).length))
      (fun x p' => Ceased (Spends start) (spent calls p + turns) x p') := by
  refine ((refill_ensures turns h.toClean).and (refill_busy turns p)).mono ?_ ?_
  · intro result p' hrefilled
    obtain ⟨⟨hclean, hdest, more, hmore, hread⟩, htraffic⟩ := hrefilled
    have hreceived : receivedBy p'.ends.calls = receivedBy p.ends.calls ++ receivedBy more := by
      rw [hmore, receivedBy_append]
    refine ⟨⟨hclean, ?_, hdest ▸ h.balance, hdest ▸ h.capacity⟩, Nat.add_le_add_left htraffic _, ?_,
      fun n hn => ?_⟩
    · rw [hreceived]
      exact each_thrifty_mono h.thrifty (List.prefix_append _ _)
    · rw [hreceived, List.length_append]
      exact Nat.le_add_right _ _
    · have hpos := List.length_pos_iff.mpr (hread.read n (congrArg Except.ok hn)).1
      rw [hreceived, List.length_append]
      omega
  · intro x p' hfailed
    obtain ⟨⟨htraced, -, more, hmore, -⟩, hbusy⟩ := hfailed
    have hthrifty : Each (Thrifty (receivedBy p'.ends.calls)) calls := by
      rw [hmore, receivedBy_append]
      exact each_thrifty_mono h.thrifty (List.prefix_append _ _)
    have hpaid : Paid start calls p' := ⟨htraced.steps, hthrifty, htraced.sent⟩
    refine ⟨_, hpaid.spends, fun hx => ?_⟩
    have := hbusy.turns (congrArg Except.error hx)
    unfold spent
    omega

end Moves

/-! ## Loops -/

section Loops

variable {start : κ} {credit : Nat}

/-- **Steps until there is room** take one unit of credit in all. -/
theorem feedPending_solvent [Writer ε] : ∀ (turns : Nat) (progress : Bool)
    {calls : List StepCall} {p : Pump κ (Observed ε)}, Solvent start calls credit p →
    Granted (credit + 1) calls p →
    Ensures (feedPending turns progress) p
      (fun made p' => ∃ more, Onward start (credit + 1) calls more p p' ∧ 0 < more.length
        ∧ (made = true → progress = true ∨ 0 < (takenBy more).length + (givenBy more).length))
      (fun x p' => Ceased (Spends start) (spent calls p + turns) x p') := by
  intro turns
  -- a turn that is not the last is a step on the unit and a flush that gives it back
  induction turns with
  | zero =>
      intro progress calls p h _
      exact Ensures.throw (.of_le h.paid.spends (Nat.le_refl _))
  | succ turns ih =>
      intro progress calls p h hgranted
      refine Ensures.bind (h.feed hgranted _) ?_
      intro s p₁ hfed
      obtain ⟨call, h₁, hprogress⟩ := hfed
      show Ensures (if p₁.destination.isFull = true then _ else _) p₁ _ _
      have hspent₁ := h₁.spent_le
      rw [List.length_singleton] at hspent₁
      split
      · refine Ensures.bind ((h₁.toSolvent.flush turns).mono (fun _ _ hq => hq) ?_) ?_
        · intro x p₂ hceased
          exact hceased.mono (by omega)
        · intro _ p₂ hflushed
          have h₂ : Onward start credit calls [call] p p₂ := h₁.trans hflushed.1
          have hspent₂ := h₂.spent_le
          rw [List.length_singleton] at hspent₂
          refine (ih (progress || s.madeProgress) h₂.toSolvent (hgranted.onward h₂)).mono ?_ ?_
          · intro made p₃ hrest
            obtain ⟨more, h₃, -, hmade⟩ := hrest
            refine ⟨[call] ++ more, h₂.trans h₃, Nat.succ_pos _, fun hm => ?_⟩
            rw [takenBy_append, givenBy_append, List.length_append, List.length_append]
            rcases hmade hm with hor | hpos
            · rcases (Bool.or_eq_true _ _).mp hor with hp | hs
              · exact Or.inl hp
              · have := hprogress hs
                simp only [takenBy_cons, takenBy_nil, givenBy_cons, givenBy_nil, List.append_nil]
                exact Or.inr (by omega)
            · exact Or.inr (by omega)
          · intro x p₃ hceased
            exact hceased.mono (by omega)
      · refine Ensures.pure ⟨[call], h₁, Nat.one_pos, fun hm => ?_⟩
        rcases (Bool.or_eq_true _ _).mp hm with hp | hs
        · exact Or.inl hp
        · have := hprogress hs
          simp only [takenBy_cons, takenBy_nil, givenBy_cons, givenBy_nil, List.append_nil]
          exact Or.inr this

/-- **Reading to the end** takes as much credit as bytes are received. -/
theorem feedReader_solvent [Reader ε] [Writer ε] : ∀ (turns : Nat) (fed : Bool)
    {calls : List StepCall} {p : Pump κ (Observed ε)},
    Solvent start calls (receivedBy p.ends.calls).length p →
    Ensures (feedReader turns fed) p
      (fun _ p' => ∃ calls', Solvent start calls' (receivedBy p'.ends.calls).length p'
        ∧ spent calls p ≤ spent calls' p')
      (fun x p' => Ceased (Spends start) (spent calls p + turns - 1) x p') := by
  intro turns
  induction turns with
  | zero =>
      intro fed calls p h
      exact Ensures.throw (.of_le h.paid.spends (Nat.sub_le _ _))
  | succ turns ih =>
      intro fed calls p h
      refine Ensures.bind ((h.refill turns).mono (fun _ _ hq => hq) ?_) ?_
      · intro x p₁ hceased
        exact hceased.mono (by omega)
      · intro result p₁ hrefilled
        obtain ⟨h₁, hspent₁, hle, hread⟩ := hrefilled
        cases result with
        | finished => exact Ensures.pure ⟨calls, h₁.mono hle, hspent₁⟩
        | read n =>
            have hlt := hread n rfl
            have hgranted : Granted ((receivedBy p.ends.calls).length + 1) calls p₁ := by
              unfold Granted
              omega
            refine Ensures.bind ((feedPending_solvent turns false h₁ hgranted).mono
              (fun _ _ hq => hq) ?_) ?_
            · intro x p₂ hceased
              exact hceased.mono (by omega)
            · intro made p₂ hfed
              obtain ⟨more, h₂, hpos, -⟩ := hfed
              have hspent₂ := h₂.spent_le
              have h₂' : Solvent start (calls ++ more) (receivedBy p₂.ends.calls).length p₂ := by
                rw [h₂.received]
                exact h₂.toSolvent.mono hlt
              refine (ih true h₂').mono ?_ ?_
              · intro _ p₃ hrest
                obtain ⟨calls', h₃, hspent₃⟩ := hrest
                exact ⟨calls', h₃, by omega⟩
              · intro x p₃ hceased
                exact hceased.mono (by omega)

/-- The credit of a pump that goes on with a remainder as long as that makes progress. -/
def drawn (calls : List StepCall) (p : Pump κ (Observed ε)) : Nat :=
  (receivedBy p.ends.calls).length + (takenBy calls).length + (givenBy calls).length

theorem Solvent.granted_drawn {calls : List StepCall} {p : Pump κ (Observed ε)}
    (h : Solvent start calls credit p) : Granted (drawn calls p + 1) calls p := by
  have := h.length_received
  unfold Granted drawn
  omega

/-- **Feeding the remainder** takes one unit for each byte used or put out. -/
theorem feedRemainder_solvent [Writer ε] : ∀ (turns : Nat) (fed : Bool)
    {calls : List StepCall} {p : Pump κ (Observed ε)}, Solvent start calls (drawn calls p) p →
    Ensures (feedRemainder turns fed) p
      (fun _ p' => ∃ calls', Solvent start calls' (drawn calls' p') p'
        ∧ spent calls p ≤ spent calls' p')
      (fun x p' => Ceased (Spends start) (spent calls p + turns - 1) x p') := by
  intro turns
  induction turns with
  | zero =>
      intro fed calls p h
      exact Ensures.throw (.of_le h.paid.spends (Nat.sub_le _ _))
  | succ turns ih =>
      intro fed calls p h
      show Ensures (if p.source.pending.isEmpty = true then _ else _) p _ _
      split
      · exact Ensures.pure ⟨calls, h, Nat.le_refl _⟩
      · refine Ensures.bind ((feedPending_solvent turns false h h.granted_drawn).mono
          (fun _ _ hq => hq) ?_) ?_
        · intro x p₁ hceased
          exact hceased.mono (by omega)
        · intro made p₁ hfed
          obtain ⟨more, h₁, hpos, hmade⟩ := hfed
          have hspent₁ := h₁.spent_le
          cases made with
          | false => exact Ensures.throw (.of_ne h₁.toSolvent.paid.spends (by simp))
          | true =>
              -- the round has used or put out at least one byte, which pays for the next one
              have h₁' : Solvent start (calls ++ more) (drawn (calls ++ more) p₁) p₁ := by
                refine h₁.toSolvent.mono ?_
                have hprogress := (hmade rfl).resolve_left (by simp)
                rw [drawn, drawn, h₁.received, takenBy_append, givenBy_append, List.length_append,
                  List.length_append]
                omega
              refine (ih true h₁').mono ?_ ?_
              · intro _ p₂ hrest
                obtain ⟨calls', h₂, hspent₂⟩ := hrest
                exact ⟨calls', h₂, by omega⟩
              · intro x p₂ hceased
                exact hceased.mono (by omega)

/-- The credit of a pump that has read and fed everything. -/
def total (calls : List StepCall) (p : Pump κ (Observed ε)) : Nat :=
  2 * ((receivedBy p.ends.calls).length + (givenBy calls).length) + 1

theorem Solvent.drawn_lt_total {calls : List StepCall} {p : Pump κ (Observed ε)}
    (h : Solvent start calls credit p) : drawn calls p < total calls p := by
  have := h.length_received
  unfold drawn total
  omega

/-- **Feeding everything the reader has.** -/
theorem readSource_solvent [Reader ε] [Writer ε] (turns : Nat) {calls : List StepCall}
    {p : Pump κ (Observed ε)} (h : Solvent start calls (receivedBy p.ends.calls).length p) :
    Ensures (readSource turns) p
      (fun _ p' => ∃ calls', Solvent start calls' (total calls' p') p'
        ∧ spent calls p ≤ spent calls' p')
      (fun x p' => Ceased (Spends start) (spent calls p + turns - 1) x p') := by
  refine Ensures.bind (feedReader_solvent turns false h) ?_
  intro fed p₁ hread
  obtain ⟨calls₁, h₁, hspent₁⟩ := hread
  have hdrawn : (receivedBy p₁.ends.calls).length ≤ drawn calls₁ p₁ := by
    unfold drawn
    omega
  refine Ensures.bind ((feedRemainder_solvent turns fed (h₁.mono hdrawn)).mono
    (fun _ _ hq => hq) ?_) ?_
  · intro x p₂ hceased
    exact hceased.mono (by omega)
  · intro fed₂ p₂ hfed
    obtain ⟨calls₂, h₂, hspent₂⟩ := hfed
    cases fed₂ with
    | true =>
        exact Ensures.pure ⟨calls₂, h₂.mono (Nat.le_of_lt h₂.drawn_lt_total),
          Nat.le_trans hspent₁ hspent₂⟩
    | false =>
        refine Ensures.bind ((feedPending_solvent turns false h₂ h₂.granted_drawn).mono
          (fun _ _ hq => hq) ?_) ?_
        · intro x p₃ hceased
          exact hceased.mono (by omega)
        · intro made p₃ hlast
          obtain ⟨more, h₃, -, -⟩ := hlast
          have hspent₃ := h₃.spent_le
          refine Ensures.pure ⟨_, h₃.toSolvent.mono ?_, by omega⟩
          have hlt := h₂.drawn_lt_total
          rw [total] at hlt ⊢
          rw [h₃.received, givenBy_append, List.length_append]
          omega

/-- **Closing the frame** takes one unit of credit in all. -/
theorem finish_solvent [Writer ε] : ∀ (turns : Nat) {calls : List StepCall}
    {p : Pump κ (Observed ε)}, Solvent start calls credit p → Granted (credit + 1) calls p →
    p.source.pending.toList = [] →
    Ensures (finish turns) p
      (fun _ p' => ∃ calls', Solvent start calls' (credit + 1) p' ∧ spent calls p ≤ spent calls' p')
      (fun x p' => Ceased (Spends start) (spent calls p + turns) x p') := by
  intro turns
  induction turns with
  | zero =>
      intro calls p h _ _
      exact Ensures.throw (.of_le h.paid.spends (Nat.le_refl _))
  | succ turns ih =>
      intro calls p h hgranted hnil
      refine Ensures.bind (h.close hgranted hnil _) ?_
      intro s p₁ hclosed
      obtain ⟨call, h₁, hsource₁⟩ := hclosed
      have hspent₁ := h₁.spent_le
      rw [List.length_singleton] at hspent₁
      cases s.completion with
      | done =>
          exact Ensures.pure ⟨_, h₁.toSolvent, by omega⟩
      | pending =>
          refine Ensures.bind ((h₁.toSolvent.flush turns).mono (fun _ _ hq => hq) ?_) ?_
          · intro x p₂ hceased
            exact hceased.mono (by omega)
          · intro _ p₂ hflushed
            have h₂ : Onward start credit calls [call] p p₂ := h₁.trans hflushed.1
            have hspent₂ := h₂.spent_le
            rw [List.length_singleton] at hspent₂
            have hnil₂ : p₂.source.pending.toList = [] := by
              rw [hflushed.2, hsource₁]
              exact hnil
            refine (ih h₂.toSolvent (hgranted.onward h₂) hnil₂).mono ?_ ?_
            · intro _ p₃ hrest
              obtain ⟨calls', h₃, hspent₃⟩ := hrest
              exact ⟨calls', h₃, by omega⟩
            · intro x p₃ hceased
              exact hceased.mono (by omega)

end Loops

/-! ## Whole operations -/

section Operations

variable {start : κ} {calls : List StepCall} {credit : Nat} {p : Pump κ (Observed ε)}

/-- Calls of the writer that take a beginning of what is in the destination leave paid what was
paid. -/
theorem Solvent.paid_of_written {p' : Pump κ (Observed ε)} {more : List EndCall}
    (h : Solvent start calls credit p) (hcodec : p'.codec = p.codec)
    (hcalls : p'.ends.calls = p.ends.calls ++ more) (hreads : ∀ c ∈ more, c.isRead = false)
    (haccepted : acceptedBy more <+: p.destination.bytes.data.toList) : Paid start calls p' where
  steps := hcodec ▸ h.steps
  thrifty := by
    rw [hcalls, receivedBy_append, receivedBy_of_no_read hreads, List.append_nil]
    exact h.thrifty
  sent := by
    rw [hcalls, acceptedBy_append, h.output]
    exact (List.prefix_append_right_inj _).mpr haccepted

/-- **Completing** makes no step. -/
theorem complete_solvent [Writer ε] (turns : Nat) (h : Solvent start calls credit p) :
    Ensures (complete turns) p (fun _ p' => Paid start calls p')
      (fun x p' => Ceased (Spends start) (spent calls p + turns) x p') := by
  obtain ⟨codec, ends, source, destination, readTotal, writtenTotal, log⟩ := p
  obtain ⟨more, hcalls, hreads, haccepted⟩ := destination.writeRemaining_calls turns ends
  have hbusy := destination.writeRemaining_busy turns ends
  obtain ⟨result, destination', ends', hwrite⟩ : ∃ result destination' ends',
      destination.writeRemaining turns ends = (result, destination', ends') := ⟨_, _, _, rfl⟩
  rw [hwrite] at hcalls hbusy
  obtain ⟨flushed, inner, hinner⟩ : ∃ result inner, Writer.flush ends'.ends = (result, inner) :=
    ⟨_, _, rfl⟩
  have hflush := Observed.flush_of hinner
  -- the flush of the writer is one more call, which takes nothing
  have hcalls' : ∀ result : Except IoError Unit, ends'.calls ++ [.flush result]
      = ends.calls ++ (more ++ [.flush result]) := by
    intro result
    dsimp only at hcalls
    rw [hcalls, List.append_assoc]
  have hreads' : ∀ result : Except IoError Unit, ∀ c ∈ more ++ [EndCall.flush result],
      c.isRead = false := fun _ =>
    List.forall_mem_append.mpr ⟨hreads, List.forall_mem_singleton.mpr rfl⟩
  have haccepted' : ∀ result : Except IoError Unit,
      acceptedBy (more ++ [.flush result]) <+: destination.bytes.data.toList := by
    intro result
    rw [acceptedBy_append]
    simpa [EndCall.accepted] using haccepted
  refine Ensures.intro (fun _ p' hw => ?_) (fun x p' hw => ?_)
  all_goals simp only [complete, hwrite] at hw
  · cases result with
    | error x => cases hw
    | ok =>
        simp only [hflush] at hw
        cases flushed <;> cases hw
        exact h.paid_of_written rfl (hcalls' _) (hreads' _) (haccepted' _)
  · cases result with
    | error x =>
        cases hw
        refine ⟨_, ⟨calls, h.paid_of_written rfl hcalls hreads haccepted, rfl⟩, fun hx => ?_⟩
        have htraffic := hbusy.turns (congrArg Except.error hx)
        dsimp only [spent] at htraffic ⊢
        omega
    | ok =>
        simp only [hflush] at hw
        cases flushed <;> cases hw
        exact .of_ne ⟨calls, h.paid_of_written rfl (hcalls' _) (hreads' _) (haccepted' _), rfl⟩
          (by simp)

/-- A new pump with room in its destination owes nothing. -/
theorem solvent_new (codec : κ) (ends : ε) (log : Log) (sourceLength : Nat)
    {destinationLength : Nat} (hroom : 0 < destinationLength) :
    Solvent codec [] 0 (⟨codec, .new ends, ⟨.empty, 0, sourceLength⟩, ⟨.empty, destinationLength⟩,
      0, 0, log⟩ : Pump κ (Observed ε)) where
  toClean := (fed_new codec ends log sourceLength hroom).toClean
  thrifty := each_nil
  balance := Nat.le_refl 0
  capacity := hroom

/-- What is left to do on a pump that has read everything: nothing is pending, and there is credit
for one more step. -/
def Drained (start : κ) (calls : List StepCall) (p : Pump κ (Observed ε)) : Prop :=
  Solvent start calls (total calls p) p ∧ p.source.pending.toList = []

/-- **Reading the source** leaves a pump drained. -/
theorem readSource_drained [Reader ε] [Writer ε] (turns : Nat) (hfed : Fed start [] p)
    (hunended : Unended p.ends.calls) (hsolvent : Solvent start [] 0 p) :
    Ensures (readSource turns) p (fun _ p' => ∃ calls, Drained start calls p')
      (fun x p' => Ceased (Spends start) (turns - 1) x p') := by
  have hread := readSource_solvent turns (hsolvent.mono (Nat.zero_le _))
  refine ((readSource_ensures turns hfed hunended).and hread).mono ?_ ?_
  · intro _ p' hdone
    obtain ⟨⟨-, hnil, -⟩, calls, h, -⟩ := hdone
    exact ⟨calls, h, hnil⟩
  · intro x p' hfailed
    exact hfailed.2.mono (by omega)

/-- **Compressing** what a reader has is paid for, and busy. -/
theorem compress_paid [Reader ε] [Writer ε] (turns : Nat) (hfed : Fed start [] p)
    (hunended : Unended p.ends.calls) (hsolvent : Solvent start [] 0 p) :
    Ensures (do readSource turns; finish turns; complete turns) p
      (fun _ p' => ∃ calls, Paid start calls p')
      (fun x p' => Ceased (Spends start) (turns - 1) x p') := by
  refine Ensures.bind (readSource_drained turns hfed hunended hsolvent) ?_
  intro _ p₁ hdrained
  obtain ⟨calls₁, h₁, hnil⟩ := hdrained
  have hgranted : Granted (total calls₁ p₁ + 1) calls₁ p₁ := Nat.le_refl _
  refine Ensures.bind ((finish_solvent turns h₁ hgranted hnil).mono (fun _ _ hq => hq) ?_) ?_
  · intro x p₂ hceased
    exact hceased.mono (by omega)
  · intro _ p₂ hfinished
    obtain ⟨calls₂, h₂, -⟩ := hfinished
    refine (complete_solvent turns h₂).mono (fun _ _ hpaid => ⟨calls₂, hpaid⟩) ?_
    intro x p₃ hceased
    exact hceased.mono (by omega)

/-- **Decompressing** what a reader has is paid for, and busy. -/
theorem decompress_paid [Reader ε] [Writer ε] (turns : Nat) (hfed : Fed start [] p)
    (hunended : Unended p.ends.calls) (hsolvent : Solvent start [] 0 p) :
    Ensures (do readSource turns; endOfInput; complete turns) p
      (fun _ p' => ∃ calls, Paid start calls p')
      (fun x p' => Ceased (Spends start) (turns - 1) x p') := by
  refine Ensures.bind (readSource_drained turns hfed hunended hsolvent) ?_
  intro _ p₁ hdrained
  obtain ⟨calls₁, h₁, -⟩ := hdrained
  refine Ensures.bind ((endOfInput_ensures p₁).mono (fun _ _ hq => hq.1) ?_) ?_
  · intro x p₂ hrefused
    obtain ⟨hp, e, hx, -⟩ := hrefused
    rw [hp, hx]
    exact .of_ne h₁.paid.spends (by simp)
  · intro _ p₂ hp
    subst hp
    refine (complete_solvent turns h₁).mono (fun _ _ hpaid => ⟨calls₁, hpaid⟩) ?_
    intro x p₃ hceased
    exact hceased.mono (by omega)

end Operations

end Pump

end Zstandard
