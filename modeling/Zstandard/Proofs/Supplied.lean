import Zstandard.Proofs.DecompressingReader
import Zstandard.Proofs.Pump

/-!
# What a reader still has to give

A reader that is relied on has, at any time, a rest of its bytes still to give (`Supplied`). Reads
that succeed take from that rest, and nothing else does; so a driver that has come to the end of its
reader has received all of it, whatever its codec does.
-/

namespace Zstandard

section Ends

variable {ε : Type} {still : List UInt8 → ε → Prop} {source : List UInt8}

/-- What was received and what the ends still give make up `source`. -/
def Supplied (still : List UInt8 → ε → Prop) (source : List UInt8) (o : Observed ε) : Prop :=
  ∃ rest, still rest o.ends ∧ receivedBy o.calls ++ rest = source

/-- A writer that was fine is fine after everything was written to it. -/
theorem writeAll_fine [Writer ε] {fine : ε → Prop} (hfine : Obliges fine) : ∀ (turns : Nat)
    {s : Slice} {w : ε} {calls : List EndCall} {o' : Observed ε}, (s.isEmpty = true → fine w) →
    (s.isEmpty = false → Takes fine s w) →
    writeAll turns (⟨w, calls⟩ : Observed ε) s = (.ok (), o') → fine o'.ends := by
  intro turns
  induction turns with
  | zero =>
      intro s w calls o' hnothing _ hok
      cases hs : s.isEmpty with
      | true =>
          rw [writeAll_of_isEmpty hs] at hok
          cases hok
          exact hnothing hs
      | false =>
          rw [writeAll_zero hs] at hok
          cases hok
  | succ turns ih =>
      intro s w calls o' hnothing hsome hok
      -- what obliges a writer holds again only when a write has been answered
      cases hs : s.isEmpty with
      | true =>
          rw [writeAll_of_isEmpty hs] at hok
          cases hok
          exact hnothing hs
      | false =>
          cases hsome hs with
          | some hw hn hw' =>
              rw [writeAll_taken hs (Observed.write_of hw) hn] at hok
              exact ih (fun _ => hw') (fun hne => hfine.write hw' hne) hok
          | interrupted hw hkind htakes =>
              rw [writeAll_interrupted hs (Observed.write_of hw) hkind] at hok
              exact ih (fun hempty => by rw [hs] at hempty; cases hempty) (fun _ => htakes) hok

/-- Writing gives the ends nothing less to give. -/
theorem Supplied.flushed [Writer ε] (hfine : ∀ rest, Obliges (still rest)) {turns : Nat}
    {b b' : DestinationBuffer} {o o' : Observed ε} (h : Supplied still source o)
    (hflush : b.flush turns o = (.ok (), b', o')) : Supplied still source o' := by
  obtain ⟨rest, hrest, hreceived⟩ := h
  obtain ⟨more, hcalls, hread, -, -⟩ := b.flush_calls turns o
  rw [hflush] at hcalls
  dsimp only at hcalls
  refine ⟨rest, ?_, by rw [hcalls, receivedBy_append, receivedBy_of_no_read hread,
    List.append_nil, hreceived]⟩
  unfold DestinationBuffer.flush at hflush
  split at hflush
  · cases hflush
  split at hflush <;> cases hflush
  next heq =>
  exact writeAll_fine (hfine rest) turns (fun _ => hrest)
    (fun hne => (hfine rest).write hrest hne) heq

theorem fill_supplied [Reader ε] : ∀ (turns : Nat) {b b' : SourceBuffer} {s : List UInt8} {r : ε}
    {calls : List EndCall} {result : Refill} {o' : Observed ε},
    Gives still (b.capacity - b.bytes.size) s r →
    b.fill turns (⟨r, calls⟩ : Observed ε) = (.ok result, b', o') →
    ∃ rest, still rest o'.ends ∧ receivedBy o'.calls ++ rest = receivedBy calls ++ s
      ∧ (result = .finished → rest = []) := by
  intro turns
  induction turns with
  | zero =>
      intro b b' s r calls result o' _ hfill
      simp [SourceBuffer.fill] at hfill
  | succ turns ih =>
      intro b b' s r calls result o' hr hfill
      cases hr with
      | piece hread hc hs hrest =>
          have heq := Observed.read_of (o := ⟨r, calls⟩) hread
          simp only [SourceBuffer.fill, heq, if_neg hc] at hfill
          cases hfill
          refine ⟨_, hrest, by simp [EndCall.received, hs], fun hfin => by cases hfin⟩
      | nothing hread hc hs hrest =>
          have heq := Observed.read_of (o := ⟨r, calls⟩) hread
          have hnil : _ = [] := List.length_eq_zero_iff.mp hc
          simp only [SourceBuffer.fill, heq, if_pos hc] at hfill
          cases hfill
          exact ⟨_, hrest, by simp [EndCall.received, hnil], fun _ => hs⟩
      | interrupted hread hkind hgives =>
          have heq := Observed.read_of (o := ⟨r, calls⟩) hread
          simp only [SourceBuffer.fill, heq, if_pos hkind] at hfill
          obtain ⟨rest, hrest, hreceived, hfin⟩ := ih hgives hfill
          exact ⟨rest, hrest, by simpa [EndCall.received] using hreceived, hfin⟩

/-- **A refill takes from what is still to be given**, and ends only when that is nothing. -/
theorem Supplied.refilled [Reader ε] (hstill : Supplies still) {turns : Nat}
    {b b' : SourceBuffer} {o o' : Observed ε} {result : Refill} (h : Supplied still source o)
    (hfits : b.Fits) (hrefill : b.refill turns o = (.ok result, b', o')) :
    Supplied still source o' ∧ (result = .finished → receivedBy o'.calls = source) := by
  obtain ⟨rest, hrest, hreceived⟩ := h
  unfold SourceBuffer.refill at hrefill
  dsimp only at hrefill
  split at hrefill
  · cases hrefill
  next hfull =>
  have hroom : 0 < b.compact.capacity - b.compact.bytes.size := by
    have := hfits.compact.size_le
    omega
  obtain ⟨rest', hrest', hreceived', hfin⟩ := fill_supplied turns (hstill.read hrest hroom) hrefill
  rw [hreceived] at hreceived'
  refine ⟨⟨rest', hrest', hreceived'⟩, fun hfinished => ?_⟩
  rw [← hreceived', hfin hfinished, List.append_nil]

end Ends

/-! ## Pumps -/

namespace Pump

variable {κ ε : Type} [Codec κ] [Writer ε] {still : List UInt8 → ε → Prop} {source : List UInt8}

omit [Codec κ] in
theorem flush_supplied (hfine : ∀ rest, Obliges (still rest)) (turns : Nat)
    {p : Pump κ (Observed ε)} (h : Supplied still source p.ends) :
    Ensures (flush turns) p (fun _ p' => Supplied still source p'.ends) (fun _ _ => True) := by
  obtain ⟨codec, ends, buffer, destination, readTotal, writtenTotal, log⟩ := p
  refine Ensures.intro (fun _ p' hw => ?_) (fun _ _ _ => trivial)
  dsimp only [flush] at hw
  split at hw <;> cases hw
  next heq => exact h.flushed hfine heq

theorem feedPending_supplied (hfine : ∀ rest, Obliges (still rest)) {start : κ} :
    ∀ (turns : Nat) (progress : Bool) {calls : List StepCall} {p : Pump κ (Observed ε)},
    Fed start calls p → Supplied still source p.ends →
    Ensures (feedPending turns progress) p (fun _ p' => Supplied still source p'.ends)
      (fun _ _ => True) := by
  intro turns
  induction turns with
  | zero => intro progress calls p _ _; exact Ensures.throw trivial
  | succ turns ih =>
      intro progress calls p h hp
      refine Ensures.bind ((feed_ensures h.toClean).mono (fun _ _ hq => hq)
        (fun _ _ _ => trivial)) ?_
      rintro s p₁ ⟨hclean, hstep, hends, hsource, hdest⟩
      have hfeeds := h.feeds_next (.ok s)
      rw [← hends] at hfeeds hp
      show Ensures (if p₁.destination.isFull = true then _ else _) p₁ _ _
      split
      · refine Ensures.bind (((flush_ensures turns hclean).and (flush_supplied hfine turns hp)).mono
          (fun _ _ hq => hq) (fun _ _ _ => trivial)) ?_
        rintro _ p₂ ⟨⟨hclean₂, hquiet, -, hdest₂, hne⟩, hp₂⟩
        exact ih _ (hclean₂.fed_of_rewind hfeeds hquiet hdest₂ hclean.destination_fits hne) hp₂
      · exact Ensures.pure hp

/-- **A pump that has read to the end** has received all that its reader had to give. -/
theorem feedReader_supplied [Reader ε] (hstill : Supplies still)
    (hfine : ∀ rest, Obliges (still rest)) {start : κ} : ∀ (turns : Nat) (fed : Bool)
    {calls : List StepCall} {p : Pump κ (Observed ε)}, Fed start calls p →
    Supplied still source p.ends →
    Ensures (feedReader turns fed) p (fun _ p' => receivedBy p'.ends.calls = source)
      (fun _ _ => True) := by
  intro turns
  induction turns with
  | zero => intro fed calls p _ _; exact Ensures.throw trivial
  | succ turns ih =>
      intro fed calls p h hp
      have hrefill : Ensures (refill turns) p
          (fun result p' => Supplied still source p'.ends
            ∧ (result = .finished → receivedBy p'.ends.calls = source)) (fun _ _ => True) := by
        have hfits := h.source_fits
        obtain ⟨codec, ends, buffer, destination, readTotal, writtenTotal, log⟩ := p
        refine Ensures.intro (fun _ p' hw => ?_) (fun _ _ _ => trivial)
        dsimp only [refill] at hw
        split at hw <;> cases hw
        · next heq =>
          obtain ⟨hp', -⟩ := hp.refilled hstill hfits heq
          exact ⟨hp', fun hfin => by cases hfin⟩
        · next heq => exact hp.refilled hstill hfits heq
      refine Ensures.bind (((refill_ensures turns h.toClean).and hrefill).mono
        (fun _ _ hq => hq) (fun _ _ _ => trivial)) ?_
      -- what the codec was fed stays fed by what has been received since
      rintro result p₁ ⟨⟨hclean, hdest, more, hmore, -⟩, hp₁, hfinished⟩
      have hfed : Fed start calls p₁ := by
        refine ⟨hclean, ?_, by rw [hdest]; exact h.room⟩
        rw [hmore, receivedBy_append]
        exact h.feeds.mono fun _ _ _ _ hf => hf.mono (List.prefix_append _ _)
      cases result with
      | read n =>
          refine Ensures.bind (((feedPending_ensures turns false hfed).and
            (feedPending_supplied hfine turns false hfed hp₁)).mono (fun _ _ hq => hq)
            (fun _ _ _ => trivial)) ?_
          rintro _ p₂ ⟨⟨-, -, calls', hfed', -⟩, hp₂⟩
          exact ih true hfed' hp₂
      | finished => exact Ensures.pure (hfinished rfl)

/-- **A pump that has read its source** has received all that its reader had to give. -/
theorem readSource_supplied [Reader ε] (hstill : Supplies still)
    (hfine : ∀ rest, Obliges (still rest)) {start : κ} (turns : Nat) {p : Pump κ (Observed ε)}
    (h : Fed start [] p) (hunended : Unended p.ends.calls) (hp : Supplied still source p.ends) :
    Ensures (readSource turns) p (fun _ p' => receivedBy p'.ends.calls = source)
      (fun _ _ => True) := by
  have hpaused : Paused [] p := by
    intro last hlast
    simp at hlast
  refine Ensures.bind (((feedReader_ensures turns false h hpaused hunended).and
    (feedReader_supplied hstill hfine turns false h hp)).mono (fun _ _ hq => hq)
    (fun _ _ _ => trivial)) ?_
  rintro fed p₁ ⟨⟨-, calls₁, hfed₁, hpaused₁⟩, hreceived⟩
  refine Ensures.bind ((feedRemainder_ensures turns fed hfed₁ hpaused₁).mono (fun _ _ hq => hq)
    (fun _ _ _ => trivial)) ?_
  rintro fed p₂ ⟨hquiet, -, calls₂, hfed₂, -⟩
  rw [← hquiet.received] at hreceived
  cases fed with
  | true => exact Ensures.pure hreceived
  | false =>
      refine Ensures.bind ((feedPending_ensures turns false hfed₂).mono (fun _ _ hq => hq)
        (fun _ _ _ => trivial)) ?_
      rintro _ p₃ ⟨hquiet₃, -⟩
      exact Ensures.pure (hquiet₃.received.trans hreceived)

end Pump

/-! ## Readers -/

namespace DecompressingReader

variable {κ ρ : Type} [Codec κ] [Reader ρ] {still : List UInt8 → ρ → Prop} {source : List UInt8}

omit [Reader ρ] in
/-- A push reads nothing. -/
theorem reader_of_advance {d d' : DecompressingReader κ ρ} (h : d.advance = (.ok (), d')) :
    d'.reader = d.reader ∧ d'.finished = d.finished := by
  obtain ⟨reader, buffer, session, output, full, stalled, finished⟩ := d
  dsimp only [advance] at h
  split at h
  · cases h
  · split at h <;> cases h
    exact ⟨rfl, rfl⟩

/-- A reader at its end has received all that the reader behind had to give. -/
structure Complete (still : List UInt8 → ρ → Prop) (source : List UInt8)
    (d : DecompressingReader κ (Observed ρ)) : Prop where
  /-- The reader behind still has something to give, or nothing. -/
  supplied : Supplied still source d.reader
  /-- At the end, it has nothing. -/
  received : d.finished = true → receivedBy d.reader.calls = source

theorem Complete.filled (hstill : Supplies still) {turns : Nat}
    {d d' : DecompressingReader κ (Observed ρ)} (h : Complete still source d)
    (hfits : d.source.Fits) (hunfinished : d.finished = false)
    (hfill : d.fill turns = (.ok (), d')) : Complete still source d' := by
  -- with and without a refill, a fill ends in a push, which leaves the reader behind alone
  have hadvanced : ∀ {e e' : DecompressingReader κ (Observed ρ)},
      Supplied still source e.reader → e.finished = false → e.advance = (.ok (), e') →
      Complete still source e' := by
    intro e e' hsupplied hfinished hadvance
    obtain ⟨hreader, hfin⟩ := reader_of_advance hadvance
    refine ⟨hreader ▸ hsupplied, fun hend => ?_⟩
    rw [hfin, hfinished] at hend
    cases hend
  obtain ⟨reader, buffer, session, output, full, stalled, finished⟩ := d
  unfold fill at hfill
  split at hfill
  · dsimp only at hfill
    split at hfill
    · next heq =>
      obtain ⟨hsupplied, hreceived⟩ := h.supplied.refilled hstill hfits heq
      unfold conclude at hfill
      split at hfill
      · split at hfill <;> cases hfill
        exact ⟨hsupplied, fun _ => hreceived rfl⟩
      · cases hfill
    · next heq =>
      refine hadvanced ?_ ?_ hfill
      · exact (h.supplied.refilled hstill hfits heq).1
      · exact hunfinished
    · cases hfill
  · exact hadvanced h.supplied hunfinished hfill

theorem Complete.prepared (hstill : Supplies still) {start : κ} {served : List UInt8} :
    ∀ {turns : Nat} {d d' : DecompressingReader κ (Observed ρ)}, Complete still source d →
    Working start served d → d.prepare turns = (.ok (), d') → Complete still source d' := by
  intro turns
  induction turns with
  | zero =>
      intro d d' _ _ hd
      simp [prepare] at hd
  | succ turns ih =>
      intro d d' h hworking hd
      rw [prepare] at hd
      split at hd
      · cases hd
        exact h
      · next hready =>
        simp only [Bool.or_eq_true, Bool.not_eq_true', not_or, Bool.not_eq_false,
          Bool.not_eq_true] at hready
        split at hd
        · next d₁ hfill =>
          obtain ⟨calls, hserving | hconcluded⟩ := hworking
          · exact ih (h.filled hstill hserving.fits hserving.unfinished hfill)
              (fill_ok hserving (toList_of_isEmpty hready.1) hfill) hd
          · rw [hconcluded.finished] at hready
            cases hready.2
        · cases hd

theorem Complete.read (hstill : Supplies still) {start : κ} {served : List UInt8}
    {turns room : Nat} {d d' : DecompressingReader κ (Observed ρ)} {b : ByteArray}
    (h : Complete still source d) (hworking : Working start served d)
    (hread : d.read turns room = (.ok b, d')) : Complete still source d' := by
  unfold DecompressingReader.read at hread
  split at hread
  · cases hread
    exact h
  · split at hread
    · cases hread
    · next hprepare =>
      cases hread
      obtain ⟨hsupplied, hreceived⟩ := h.prepared hstill hworking hprepare
      exact ⟨hsupplied, hreceived⟩

/-- **Reads that do not fail** leave the reader behind with what it has not given. -/
theorem Served.complete (hstill : Supplies still) {start : κ} {served : List UInt8}
    {first d : DecompressingReader κ (Observed ρ)} (h : Served first served d)
    (hworking : Working start [] first) (hfirst : Complete still source first) :
    Complete still source d := by
  induction h with
  | nil => exact hfirst
  | read hserved hread ih => exact ih.read hstill (hserved.working hworking) hread

end DecompressingReader

end Zstandard
