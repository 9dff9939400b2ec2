import Zstandard.Stream
import Zstandard.Proofs.Buffers

/-!
# What no call of the ends breaks

A pump changes its ends by reads, writes and flushes alone. So what none of these breaks holds of
the ends at any time, whatever a stream comes to: also when it has failed, and when it is cut off.
-/

namespace Zstandard

/-- No call of the ends breaks `I`. -/
structure Upheld {ε : Type} [Reader ε] [Writer ε] (I : ε → Prop) : Prop where
  read : ∀ {e e' : ε} {room : Nat} {result : Except IoError ByteArray},
    I e → Reader.read e room = (result, e') → I e'
  write : ∀ {e e' : ε} {s : Slice} {result : Except IoError Nat},
    I e → Writer.write e s = (result, e') → I e'
  flush : ∀ {e e' : ε} {result : Except IoError Unit},
    I e → Writer.flush e = (result, e') → I e'

namespace Upheld

variable {ε : Type} [Reader ε] [Writer ε] {I : ε → Prop}

/-! ## Buffers -/

theorem fill (h : Upheld I) : ∀ (turns : Nat) (b : SourceBuffer) {e : ε}, I e →
    I (b.fill turns e).2.2 := by
  intro turns
  induction turns with
  | zero => exact fun _ _ he => he
  | succ turns ih =>
      intro b e he
      obtain ⟨result, e', hread⟩ :
          ∃ result e', Reader.read e (b.capacity - b.bytes.size) = (result, e') := ⟨_, _, rfl⟩
      have he' := h.read he hread
      rcases b.fill_of_read result with ⟨told, b', hended⟩ | hagain
      · rwa [hended hread]
      · rw [hagain hread]
        exact ih b he'

theorem refill (h : Upheld I) (turns : Nat) (b : SourceBuffer) {e : ε} (he : I e) :
    I (b.refill turns e).2.2 := by
  by_cases hfull : b.compact.bytes.size = b.compact.capacity
  · rwa [SourceBuffer.refill_of_full hfull]
  · rw [SourceBuffer.refill_of_not_full hfull]
    exact h.fill turns _ he

theorem writeAll (h : Upheld I) : ∀ (turns : Nat) (s : Slice) {e : ε}, I e →
    I (writeAll turns e s).2 := by
  intro turns
  induction turns with
  | zero =>
      intro s e he
      cases hs : s.isEmpty with
      | true => rwa [writeAll_of_isEmpty hs]
      | false => rwa [writeAll_zero hs]
  | succ turns ih =>
      intro s e he
      cases hs : s.isEmpty with
      | true => rwa [writeAll_of_isEmpty hs]
      | false =>
          obtain ⟨result, e', hwrite⟩ : ∃ result e', Writer.write e s = (result, e') :=
            ⟨_, _, rfl⟩
          have he' := h.write he hwrite
          rcases writeAll_of_write hs result with ⟨told, hended⟩ | ⟨rest, hagain⟩
          · rwa [hended hwrite]
          · rw [hagain hwrite]
            exact ih rest he'

theorem flushed (h : Upheld I) (turns : Nat) (b : DestinationBuffer) {e : ε} (he : I e) :
    I (b.flush turns e).2.2 := by
  have hwritten := h.writeAll turns (.ofBytes b.bytes) he
  unfold DestinationBuffer.flush
  split
  · exact he
  · split
    all_goals
      next heq =>
      rw [heq] at hwritten
      exact hwritten

theorem writeRemaining (h : Upheld I) (turns : Nat) (b : DestinationBuffer) {e : ε} (he : I e) :
    I (b.writeRemaining turns e).2.2 := by
  unfold DestinationBuffer.writeRemaining
  split
  · exact he
  · exact h.flushed turns b he

end Upheld

/-! ## Pumps -/

namespace Pump

variable {κ ε α β : Type} {I : ε → Prop}

/-- Work that finds the ends in `I` leaves them there, whatever it comes to. -/
def Upholds (I : ε → Prop) (work : Work κ ε α) : Prop :=
  ∀ p, I p.ends → Ensures work p (fun _ p' => I p'.ends) (fun _ p' => I p'.ends)

theorem upholds_pure (a : α) : Upholds I (pure a : Work κ ε α) := fun _ hp => Ensures.pure hp

theorem upholds_throw (x : Halt Error) : Upholds I (throw x : Work κ ε α) :=
  fun _ hp => Ensures.throw hp

theorem Upholds.bind {work : Work κ ε α} {k : α → Work κ ε β} (h : Upholds I work)
    (hk : ∀ a, Upholds I (k a)) : Upholds I (work >>= k) :=
  fun p hp => Ensures.bind (h p hp) fun a p' hp' => hk a p' hp'

/-- Looking at the pump changes nothing. -/
theorem upholds_get {k : Pump κ ε → Work κ ε α} (h : ∀ p, Upholds I (k p)) :
    Upholds I (get >>= k) := fun p hp => h p p hp

/-- Work that leaves the ends as they are. -/
theorem upholds_of_ends {work : Work κ ε α}
    (hok : ∀ p a p', work p = .ok a p' → p'.ends = p.ends)
    (herror : ∀ p x p', work p = .error x p' → p'.ends = p.ends) : Upholds I work :=
  fun p hp => Ensures.intro (fun a p' hw => by rwa [hok p a p' hw])
    (fun x p' hw => by rwa [herror p x p' hw])

/-! ### Single moves -/

theorem upholds_note (record : Record) : Upholds I (note record : Work κ ε Unit) :=
  fun _ hp => hp

theorem upholds_feed [Codec κ] : Upholds I (feed : Work κ ε Step) := by
  refine upholds_of_ends (fun p s p' hw => ?_) (fun p x p' hw => ?_)
  all_goals
    unfold feed at hw
    dsimp only at hw
    split at hw <;> cases hw
    rfl

theorem upholds_close [Codec κ] : Upholds I (close : Work κ ε Step) := by
  refine upholds_of_ends (fun p s p' hw => ?_) (fun p x p' hw => ?_)
  all_goals
    unfold close at hw
    dsimp only at hw
    split at hw <;> cases hw
    rfl

theorem upholds_endOfInput [Codec κ] : Upholds I (endOfInput : Work κ ε Unit) := by
  refine upholds_of_ends (fun p s p' hw => ?_) (fun p x p' hw => ?_)
  all_goals
    unfold endOfInput at hw
    split at hw <;> cases hw
    rfl

variable [Reader ε] [Writer ε] (hI : Upheld I)

include hI

theorem upholds_refill (turns : Nat) : Upholds I (refill turns : Work κ ε Refill) := by
  intro p hp
  have hends := hI.refill turns p.source hp
  unfold Ensures refill
  split
  all_goals
    next heq =>
    dsimp only at heq
    split at heq <;> cases heq
    all_goals
      next hrefill =>
      rw [hrefill] at hends
      exact hends

theorem upholds_flush (turns : Nat) : Upholds I (flush turns : Work κ ε Unit) := by
  intro p hp
  have hends := hI.flushed turns p.destination hp
  unfold Ensures flush
  split
  all_goals
    next heq =>
    dsimp only at heq
    split at heq <;> cases heq
    next hflush =>
    rw [hflush] at hends
    exact hends

theorem upholds_complete (turns : Nat) : Upholds I (complete turns : Work κ ε Unit) := by
  intro p hp
  have hends := hI.writeRemaining turns p.destination hp
  refine Ensures.intro (fun _ p' hw => ?_) (fun x p' hw => ?_)
  · dsimp only [complete] at hw
    split at hw
    · cases hw
    · next hrest =>
      rw [hrest] at hends
      split at hw <;> cases hw
      next hflush => exact hI.flush hends hflush
  · dsimp only [complete] at hw
    split at hw
    · next hrest =>
      rw [hrest] at hends
      cases hw
      exact hends
    · next hrest =>
      rw [hrest] at hends
      split at hw <;> cases hw
      next hflush => exact hI.flush hends hflush

/-! ### Operations -/

variable [Codec κ]

theorem upholds_feedPending : ∀ (turns : Nat) (progress : Bool),
    Upholds I (feedPending turns progress : Work κ ε Bool) := by
  intro turns
  induction turns with
  | zero => exact fun _ => upholds_throw _
  | succ turns ih =>
      refine fun progress => upholds_feed.bind fun step => upholds_get fun p => ?_
      split
      · exact (upholds_flush hI turns).bind fun _ => ih _
      · exact upholds_pure _

theorem upholds_feedReader : ∀ (turns : Nat) (fed : Bool),
    Upholds I (feedReader turns fed : Work κ ε Bool) := by
  intro turns
  induction turns with
  | zero => exact fun _ => upholds_throw _
  | succ turns ih =>
      refine fun fed => (upholds_refill hI turns).bind fun result => ?_
      cases result with
      | read n => exact (upholds_feedPending hI turns false).bind fun _ => ih true
      | finished => exact upholds_pure _

theorem upholds_feedRemainder : ∀ (turns : Nat) (fed : Bool),
    Upholds I (feedRemainder turns fed : Work κ ε Bool) := by
  intro turns
  induction turns with
  | zero => exact fun _ => upholds_throw _
  | succ turns ih =>
      refine fun fed => upholds_get fun p => ?_
      split
      · exact upholds_pure _
      · refine (upholds_feedPending hI turns false).bind fun progress => ?_
        split
        · exact ih true
        · exact upholds_throw _

theorem upholds_readSource (turns : Nat) : Upholds I (readSource turns : Work κ ε Unit) := by
  refine (upholds_feedReader hI turns false).bind fun fed =>
    (upholds_feedRemainder hI turns fed).bind fun fed => ?_
  split
  · exact upholds_pure _
  · exact (upholds_feedPending hI turns false).bind fun _ => upholds_pure _

theorem upholds_finish : ∀ turns : Nat, Upholds I (finish turns : Work κ ε Unit) := by
  intro turns
  induction turns with
  | zero => exact upholds_throw _
  | succ turns ih =>
      refine upholds_close.bind fun step => ?_
      cases step.completion with
      | pending => exact (upholds_flush hI turns).bind fun _ => ih
      | done => exact upholds_pure _

end Pump

/-! ## Streams -/

namespace Stream

variable {κ ε : Type} [Reader ε] [Writer ε] {I : ε → Prop} {memory : Memory} {ends : ε} {log : Log}

omit [Reader ε] [Writer ε] in
theorem run_upholds {direction : Direction} {sourceLength destinationLength : Nat} {codec : κ}
    {work : Pump.Work κ ε Unit} (hwork : Pump.Upholds I work) (hends : I ends) :
    I (run memory direction sourceLength destinationLength work codec ends log).ends := by
  unfold run Pump.create
  cases SourceBuffer.create memory sourceLength with
  | error e => exact hends
  | ok source =>
      cases DestinationBuffer.create memory destinationLength with
      | error e => exact hends
      | ok destination =>
          have hnote := Pump.upholds_note (κ := κ) (I := I)
            (.streamOpened direction sourceLength destinationLength)
          have hnoted :=
            hnote.bind (fun _ => hwork) ⟨codec, ends, source, destination, 0, 0, log⟩ hends
          dsimp only
          split
          · next heq => exact hnoted.of_ok heq
          · next heq => exact hnoted.of_error heq

variable [Codec κ] (hI : Upheld I) (turns : Nat)

include hI

/-- **Compression upholds** what no call of its ends breaks. -/
theorem compress_upholds (create : CompressorOptions → Except Error κ) (o : CompressorOptions)
    (hends : I ends) : I (compress memory create turns o ends log).ends := by
  unfold compress
  split
  · exact hends
  · split
    · exact hends
    · exact run_upholds ((Pump.upholds_readSource hI turns).bind fun _ =>
        (Pump.upholds_finish hI turns).bind fun _ => Pump.upholds_complete hI turns) hends

/-- **Decompression upholds** what no call of its ends breaks. -/
theorem decompress_upholds (create : DecompressorOptions → Except Error κ)
    (o : DecompressorOptions) (hends : I ends) :
    I (decompress memory create turns o ends log).ends := by
  unfold decompress
  split
  · exact hends
  · split
    · exact hends
    · exact run_upholds ((Pump.upholds_readSource hI turns).bind fun _ =>
        Pump.upholds_endOfInput.bind fun _ => Pump.upholds_complete hI turns) hends

end Stream

end Zstandard
