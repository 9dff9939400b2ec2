import Zstandard.Adapter.Reading
import Zstandard.Adapter.Writing
import Zstandard.OneShot
import Zstandard.Stream
import Zstandard.Proofs.Buffers

/-!
# Turns enough are as good as any more

A run that has not used up its turns comes to the same with one turn more. `Stands` says so of two
outcomes, `Prolongs` of two works; what is sequenced from works that are prolonged is prolonged
(`Prolongs.bind`), so each loop needs one induction on its turns. So a run that ends with a value or
an error has settled (`settles_of_stands`), and two numbers of turns that are both enough are as
good as each other (`eq_of_stands`).
-/

namespace Zstandard

section Outcomes

variable {ε α β σ : Type}

/-- The turns have run out. -/
def Cut (x : Except (Halt ε) α × σ) : Prop := x.1 = .error .outOfTurns

theorem Cut.eq_error {x : Except (Halt ε) α × σ} (h : Cut x) :
    ∃ s, x = (.error .outOfTurns, s) :=
  ⟨x.2, Prod.ext h rfl⟩

/-- An outcome that more turns leave as it is, unless turns have run out. -/
def Stands (x longer : Except (Halt ε) α × σ) : Prop := ¬ Cut x → longer = x

/-- An outcome that stands with each further turn stands with any number of them. -/
theorem eq_of_le_of_stands {run : Nat → Except (Halt ε) α × σ}
    (h : ∀ turns, Stands (run turns) (run (turns + 1))) {n m : Nat} (hnm : n ≤ m)
    (hn : ¬ Cut (run n)) : run m = run n := by
  induction hnm with
  | refl => rfl
  | @step m _ ih => rw [h m (by rw [ih]; exact hn), ih]

/-- Two numbers of turns that are enough come to the same. -/
theorem eq_of_stands {run : Nat → Except (Halt ε) α × σ}
    (h : ∀ turns, Stands (run turns) (run (turns + 1))) {n m : Nat} (hn : ¬ Cut (run n))
    (hm : ¬ Cut (run m)) : run n = run m := by
  rcases Nat.le_total n m with hnm | hmn
  · exact (eq_of_le_of_stands h hnm hn).symm
  · exact eq_of_le_of_stands h hmn hm

/-- A run with turns enough has settled. -/
theorem settles_of_stands {run : Nat → Except (Halt ε) α × σ}
    (h : ∀ turns, Stands (run turns) (run (turns + 1))) {n : Nat} (hn : ¬ Cut (run n)) :
    Settles run (run n) :=
  ⟨n, fun _ hm => eq_of_le_of_stands h hm hn⟩

/-- The outcome of work as a value or a halt, and what it leaves. -/
def outcomeOf : EStateM.Result (Halt ε) σ α → Except (Halt ε) α × σ
  | .ok a s => (.ok a, s)
  | .error h s => (.error h, s)

/-- Work whose outcomes all stand when it is exchanged for the longer one. -/
def Prolongs (longer work : EStateM (Halt ε) σ α) : Prop :=
  ∀ s, Stands (outcomeOf (work s)) (outcomeOf (longer s))

theorem outcomeOf_inj {x y : EStateM.Result (Halt ε) σ α} (h : outcomeOf x = outcomeOf y) :
    x = y := by
  cases x <;> cases y <;> simp_all [outcomeOf]

theorem Prolongs.refl (work : EStateM (Halt ε) σ α) : Prolongs work work := fun _ _ => rfl

/-- Whatever work there is, it prolongs the work that has no turns. -/
theorem prolongs_outOfTurns (work : EStateM (Halt ε) σ α) :
    Prolongs work (throw .outOfTurns) :=
  fun _ h => absurd rfl h

/-- **Work after work is prolonged** if both are. -/
theorem Prolongs.bind {x x' : EStateM (Halt ε) σ α} {k k' : α → EStateM (Halt ε) σ β}
    (hx : Prolongs x' x) (hk : ∀ a, Prolongs (k' a) (k a)) : Prolongs (x' >>= k') (x >>= k) := by
  intro s h
  cases hw : x s with
  | ok a s₁ =>
      have hx' : x' s = .ok a s₁ := by
        have := hx s (by rw [hw]; simp [Cut, outcomeOf])
        rw [hw] at this
        exact outcomeOf_inj this
      rw [bind_of_ok hw] at h ⊢
      rw [bind_of_ok hx']
      exact hk a s₁ h
  | error e s₁ =>
      rw [bind_of_error hw] at h ⊢
      have hx' : x' s = .error e s₁ := by
        have := hx s (by rw [hw]; simpa [Cut, outcomeOf] using h)
        rw [hw] at this
        exact outcomeOf_inj this
      rw [bind_of_error hx']

/-- Work that has turns enough comes to the same as what prolongs it. -/
theorem Prolongs.eq {longer work : EStateM (Halt ε) σ α} (h : Prolongs longer work) {s : σ}
    (hs : ¬ Cut (outcomeOf (work s))) : longer s = work s :=
  outcomeOf_inj (h s hs)

end Outcomes

/-! ## Ends and buffers -/

/-- Writing everything. -/
theorem writeAll_stands {ω : Type} [Writer ω] : ∀ (turns : Nat) (w : ω) (s : Slice),
    Stands (writeAll turns w s) (writeAll (turns + 1) w s) := by
  intro turns
  induction turns with
  | zero =>
      intro w s h
      cases hs : s.isEmpty with
      | true => rw [writeAll_of_isEmpty hs, writeAll_of_isEmpty hs]
      | false => rw [writeAll_zero hs] at h; exact absurd rfl h
  | succ turns ih =>
      intro w s h
      cases hs : s.isEmpty with
      | true => rw [writeAll_of_isEmpty hs, writeAll_of_isEmpty hs]
      | false =>
          obtain ⟨result, w', hw⟩ : ∃ result w', Writer.write w s = (result, w') := ⟨_, _, rfl⟩
          rcases writeAll_of_write hs result with ⟨told, hended⟩ | ⟨rest, hagain⟩
          · rw [hended hw, hended hw]
          · rw [hagain hw] at h ⊢
            rw [hagain hw]
            exact ih w' rest h

namespace SourceBuffer

variable {ρ : Type} [Reader ρ]

theorem fill_stands : ∀ (turns : Nat) (b : SourceBuffer) (r : ρ),
    Stands (b.fill turns r) (b.fill (turns + 1) r) := by
  intro turns
  induction turns with
  | zero => intro b r h; exact absurd rfl h
  | succ turns ih =>
      intro b r h
      obtain ⟨result, r', hread⟩ :
          ∃ result r', Reader.read r (b.capacity - b.bytes.size) = (result, r') := ⟨_, _, rfl⟩
      rcases fill_of_read b result with ⟨told, b', hended⟩ | hagain
      · rw [hended hread, hended hread]
      · rw [hagain hread] at h ⊢
        rw [hagain hread]
        exact ih b r' h

theorem refill_stands (turns : Nat) (b : SourceBuffer) (r : ρ) :
    Stands (b.refill turns r) (b.refill (turns + 1) r) := by
  intro h
  by_cases hfull : b.compact.bytes.size = b.compact.capacity
  · rw [refill_of_full hfull, refill_of_full hfull]
  · rw [refill_of_not_full hfull] at h ⊢
    rw [refill_of_not_full hfull]
    exact fill_stands turns _ r h

end SourceBuffer

namespace DestinationBuffer

variable {ω : Type} [Writer ω]

theorem flush_stands (turns : Nat) (b : DestinationBuffer) (w : ω) :
    Stands (b.flush turns w) (b.flush (turns + 1) w) := by
  intro h
  unfold flush at h ⊢
  by_cases hzero : b.bytes.size = 0
  · simp only [hzero, if_true]
  · simp only [hzero, if_false] at h ⊢
    rw [writeAll_stands turns w _ ?_]
    -- turns that run out while writing have run out
    intro hcut
    obtain ⟨w', hw⟩ := hcut.eq_error
    rw [hw] at h
    exact h rfl

theorem writeRemaining_stands (turns : Nat) (b : DestinationBuffer) (w : ω) :
    Stands (b.writeRemaining turns w) (b.writeRemaining (turns + 1) w) := by
  intro h
  unfold writeRemaining at h ⊢
  by_cases hzero : b.bytes.size = 0
  · simp only [hzero, if_true]
  · simp only [hzero, if_false] at h ⊢
    exact flush_stands turns b w h

end DestinationBuffer

/-! ## Pumps -/

namespace Pump

variable {κ ε : Type} [Reader ε] [Writer ε] (turns : Nat)

omit [Writer ε] in
theorem refill_prolongs : Prolongs (refill (turns + 1) : Work κ ε Refill) (refill turns) := by
  intro p h
  obtain ⟨codec, ends, source, destination, readTotal, writtenTotal, log⟩ := p
  have hrefill : ¬ Cut (source.refill turns ends) := by
    intro hcut
    obtain ⟨rest, hr⟩ := hcut.eq_error
    simp [refill, hr, outcomeOf, Cut] at h
  simp only [refill, SourceBuffer.refill_stands turns source ends hrefill]

omit [Reader ε] in
theorem flush_prolongs : Prolongs (flush (turns + 1) : Work κ ε Unit) (flush turns) := by
  intro p h
  obtain ⟨codec, ends, source, destination, readTotal, writtenTotal, log⟩ := p
  have hflush : ¬ Cut (destination.flush turns ends) := by
    intro hcut
    obtain ⟨rest, hr⟩ := hcut.eq_error
    simp [flush, hr, outcomeOf, Cut] at h
  simp only [flush, DestinationBuffer.flush_stands turns destination ends hflush]

omit [Reader ε] in
theorem complete_prolongs : Prolongs (complete (turns + 1) : Work κ ε Unit) (complete turns) := by
  intro p h
  obtain ⟨codec, ends, source, destination, readTotal, writtenTotal, log⟩ := p
  have hrest : ¬ Cut (destination.writeRemaining turns ends) := by
    intro hcut
    obtain ⟨rest, hr⟩ := hcut.eq_error
    simp [complete, hr, outcomeOf, Cut] at h
  simp only [complete, DestinationBuffer.writeRemaining_stands turns destination ends hrest]

variable [Codec κ]

omit [Reader ε] in
theorem feedPending_prolongs : ∀ progress : Bool,
    Prolongs (feedPending (turns + 1) progress : Work κ ε Bool) (feedPending turns progress) := by
  induction turns with
  | zero => exact fun progress => prolongs_outOfTurns _
  | succ turns ih =>
      intro progress
      refine (Prolongs.refl feed).bind fun s => (Prolongs.refl get).bind fun p => ?_
      split
      · exact (flush_prolongs turns).bind fun _ => ih _
      · exact Prolongs.refl _

theorem feedReader_prolongs : ∀ fed : Bool,
    Prolongs (feedReader (turns + 1) fed : Work κ ε Bool) (feedReader turns fed) := by
  induction turns with
  | zero => exact fun fed => prolongs_outOfTurns _
  | succ turns ih =>
      intro fed
      refine (refill_prolongs turns).bind fun result => ?_
      cases result with
      | read n => exact (feedPending_prolongs turns false).bind fun _ => ih true
      | finished => exact Prolongs.refl _

omit [Reader ε] in
theorem feedRemainder_prolongs : ∀ fed : Bool,
    Prolongs (feedRemainder (turns + 1) fed : Work κ ε Bool) (feedRemainder turns fed) := by
  induction turns with
  | zero => exact fun fed => prolongs_outOfTurns _
  | succ turns ih =>
      intro fed
      refine (Prolongs.refl get).bind fun p => ?_
      split
      · exact Prolongs.refl _
      · refine (feedPending_prolongs turns false).bind fun progress => ?_
        cases progress with
        | true => exact ih true
        | false => exact Prolongs.refl _

theorem readSource_prolongs :
    Prolongs (readSource (turns + 1) : Work κ ε Unit) (readSource turns) := by
  refine (feedReader_prolongs turns false).bind fun fed =>
    (feedRemainder_prolongs turns fed).bind fun fed => ?_
  cases fed with
  | true => exact Prolongs.refl _
  | false => exact (feedPending_prolongs turns false).bind fun _ => Prolongs.refl _

omit [Reader ε] in
theorem finish_prolongs : Prolongs (finish (turns + 1) : Work κ ε Unit) (finish turns) := by
  induction turns with
  | zero => exact prolongs_outOfTurns _
  | succ turns ih =>
      refine (Prolongs.refl close).bind fun s => ?_
      cases s.completion with
      | pending => exact (flush_prolongs turns).bind fun _ => ih
      | done => exact Prolongs.refl _

end Pump

namespace Stream

variable {κ ε : Type} [Codec κ] [Reader ε] [Writer ε] {memory : Memory} {log : Log} {turns : Nat}

omit [Codec κ] [Reader ε] [Writer ε] in
/-- A run with turns enough comes to the same when its work is prolonged. -/
theorem run_stands {direction : Direction} {sourceLength destinationLength : Nat} {codec : κ}
    {ends : ε} {work longer : Pump.Work κ ε Unit} (h : Prolongs longer work)
    (hresult : (run memory direction sourceLength destinationLength work codec ends log).result
      ≠ .error .outOfTurns) :
    run memory direction sourceLength destinationLength longer codec ends log
      = run memory direction sourceLength destinationLength work codec ends log := by
  unfold run at hresult ⊢
  cases hcreate : Pump.create memory codec ends log sourceLength destinationLength with
  | error e => rfl
  | ok pump =>
      rw [hcreate] at hresult
      have hnoted : Prolongs
          (do Pump.note (.streamOpened direction sourceLength destinationLength); longer)
          (do Pump.note (.streamOpened direction sourceLength destinationLength); work) :=
        (Prolongs.refl _).bind fun _ => h
      have hcut : ¬ Cut (outcomeOf
          ((do Pump.note (.streamOpened direction sourceLength destinationLength); work :
            Pump.Work κ ε Unit) pump)) := by
        intro hcut
        dsimp only at hresult
        split at hresult
        · next hw =>
          rw [hw] at hcut
          cases hcut
        · next hw =>
          rw [hw] at hcut
          exact hresult hcut
      dsimp only
      rw [hnoted.eq hcut]

theorem compress_stands {create : CompressorOptions → Except Error κ} {o : CompressorOptions}
    {ends : ε}
    (h : (compress memory create turns o ends log).result ≠ .error .outOfTurns) :
    compress memory create (turns + 1) o ends log = compress memory create turns o ends log := by
  unfold compress at h ⊢
  split
  · rfl
  · split
    · rfl
    · next hvalidate _ _ _ hsetUp =>
      rw [hvalidate] at h
      simp only [hsetUp] at h
      exact run_stands ((Pump.readSource_prolongs turns).bind fun _ =>
        (Pump.finish_prolongs turns).bind fun _ => Pump.complete_prolongs turns) h

theorem decompress_stands {create : DecompressorOptions → Except Error κ}
    {o : DecompressorOptions} {ends : ε}
    (h : (decompress memory create turns o ends log).result ≠ .error .outOfTurns) :
    decompress memory create (turns + 1) o ends log
      = decompress memory create turns o ends log := by
  unfold decompress at h ⊢
  split
  · rfl
  · split
    · rfl
    · next hvalidate _ _ _ hsetUp =>
      rw [hvalidate] at h
      simp only [hsetUp] at h
      exact run_stands ((Pump.readSource_prolongs turns).bind fun _ =>
        (Prolongs.refl _).bind fun _ => Pump.complete_prolongs turns) h

end Stream

/-! ## One-shot operations -/

namespace OneShot

variable {κ : Type} [Codec κ] (memory : Memory) (turns : Nat)

theorem feedAll_prolongs : ∀ remaining : Slice,
    Prolongs (feedAll memory (turns + 1) remaining : Work κ Unit)
      (feedAll memory turns remaining) := by
  induction turns with
  | zero => exact fun remaining => prolongs_outOfTurns _
  | succ turns ih =>
      intro remaining
      unfold feedAll
      split
      · exact Prolongs.refl _
      · refine (Prolongs.refl (step remaining .feed)).bind fun s =>
          (Prolongs.refl get).bind fun o => ?_
        split
        · exact (Prolongs.refl (grow memory)).bind fun _ => ih _
        · exact ih _

theorem finish_prolongs :
    Prolongs (finish memory (turns + 1) : Work κ Unit) (finish memory turns) := by
  induction turns with
  | zero => exact prolongs_outOfTurns _
  | succ turns ih =>
      refine (Prolongs.refl (step .empty .finish)).bind fun s => ?_
      cases s.completion with
      | pending => exact (Prolongs.refl (grow memory)).bind fun _ => ih
      | done => exact Prolongs.refl _

theorem feedFrames_prolongs : ∀ remaining : Slice,
    Prolongs (feedFrames memory (turns + 1) remaining : Work κ Unit)
      (feedFrames memory turns remaining) := by
  induction turns with
  | zero => exact fun remaining => prolongs_outOfTurns _
  | succ turns ih =>
      intro remaining
      refine (Prolongs.refl (step remaining .feed)).bind fun s =>
        (Prolongs.refl get).bind fun o => ?_
      split
      · exact (Prolongs.refl (grow memory)).bind fun _ => ih _
      · split
        · exact Prolongs.refl _
        · split
          · exact ih _
          · exact Prolongs.refl _

variable {memory : Memory} {log : Log} {turns : Nat} {source : ByteArray}

omit [Codec κ] in
/-- A run with turns enough comes to the same when its work is prolonged. -/
theorem run_stands {direction : Direction} {unit sourceSize : Nat} {codec : κ}
    {work longer : Work κ Unit} (h : Prolongs longer work)
    (hresult : (run memory direction unit sourceSize work codec log).result
      ≠ .error .outOfTurns) :
    run memory direction unit sourceSize longer codec log
      = run memory direction unit sourceSize work codec log := by
  unfold run at hresult ⊢
  cases hcreate : GrowableBuffer.create memory unit with
  | error e => rfl
  | ok destination =>
      rw [hcreate] at hresult
      have hcut : ¬ Cut (outcomeOf (work ⟨codec, destination, log⟩)) := by
        intro hcut
        dsimp only at hresult
        split at hresult
        · next hw =>
          rw [hw] at hcut
          cases hcut
        · next hw =>
          rw [hw] at hcut
          obtain rfl := Except.error.inj hcut
          exact hresult rfl
      dsimp only
      rw [h.eq hcut]

theorem compress_stands {create : CompressorOptions → Except Error κ} {o : CompressorOptions}
    (h : (compress memory create turns o source log).result ≠ .error .outOfTurns) :
    compress memory create (turns + 1) o source log
      = compress memory create turns o source log := by
  unfold compress at h ⊢
  split
  · rfl
  · split
    · rfl
    · next hvalidate _ _ _ hsetUp =>
      rw [hvalidate] at h
      simp only [hsetUp] at h
      exact run_stands ((feedAll_prolongs memory turns _).bind fun _ =>
        finish_prolongs memory turns) h

theorem decompress_stands {create : DecompressorOptions → Except Error κ}
    {o : DecompressorOptions}
    (h : (decompress memory create turns o source log).result ≠ .error .outOfTurns) :
    decompress memory create (turns + 1) o source log
      = decompress memory create turns o source log := by
  unfold decompress at h ⊢
  split
  · rfl
  · split
    · rfl
    · next hvalidate _ _ _ hsetUp =>
      rw [hvalidate] at h
      simp only [hsetUp] at h
      exact run_stands ((feedFrames_prolongs memory turns _).bind fun _ => Prolongs.refl _) h

end OneShot

/-! ## Decompressing writers -/

namespace DecompressingWriter

variable {κ ω : Type} [Codec κ] [Writer ω] (turns : Nat)

theorem pushThrough_prolongs (input : Slice) :
    Prolongs (pushThrough (turns + 1) input : Work κ ω Pushed) (pushThrough turns input) := by
  refine (Prolongs.refl (onSession (Session.push input))).bind fun p =>
    (Prolongs.refl (onSession Session.drain)).bind fun bytes d h => ?_
  obtain ⟨writer, session⟩ := d
  have hwrite : ¬ Cut (writeAll turns writer (.ofBytes bytes)) := by
    intro hcut
    obtain ⟨rest, hr⟩ := hcut.eq_error
    simp [hr, outcomeOf, Cut, Halt.map] at h
  simp only [writeAll_stands turns writer _ hwrite]

theorem writeChunk_prolongs (input : Slice) :
    Prolongs (writeChunk input (turns + 1) : Work κ ω Nat) (writeChunk input turns) := by
  induction turns with
  | zero => exact prolongs_outOfTurns _
  | succ turns ih =>
      refine (pushThrough_prolongs turns input).bind fun p => ?_
      split
      · exact Prolongs.refl _
      · split
        · exact ih
        · exact Prolongs.refl _

theorem settle_prolongs :
    Prolongs (settle (turns + 1) : Work κ ω Unit) (settle turns) := by
  induction turns with
  | zero => exact prolongs_outOfTurns _
  | succ turns ih =>
      refine (pushThrough_prolongs turns .empty).bind fun p => ?_
      split
      · exact ih
      · exact Prolongs.refl _

theorem write_stands (d : DecompressingWriter κ ω) (input : Slice) :
    Stands (d.write turns input) (d.write (turns + 1) input) := by
  intro h
  have hwork : ¬ Cut (outcomeOf (writeChunk input turns d)) := by
    intro hcut
    unfold write at h
    split at h
    · next hw =>
      rw [hw] at hcut
      cases hcut
    · next hw =>
      rw [hw] at hcut
      obtain rfl := Except.error.inj hcut
      exact h rfl
  unfold write
  rw [(writeChunk_prolongs turns input).eq hwork]

theorem finish_stands (d : DecompressingWriter κ ω) :
    Stands (d.finish turns) (d.finish (turns + 1)) := by
  intro h
  have hwork := (settle_prolongs turns).bind fun _ => Prolongs.refl (do
    onSession fun s => (s.endOfInput, s)
    flushWriter
    modify fun d => { d with session := d.session.close } : Work κ ω Unit)
  unfold finish at h ⊢
  dsimp only at h ⊢
  rw [hwork.eq ?_]
  intro hcut
  split at h
  · next hw =>
    rw [hw] at hcut
    cases hcut
  · next hw =>
    rw [hw] at hcut
    exact h hcut

end DecompressingWriter

end Zstandard
