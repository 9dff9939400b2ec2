import Zstandard.Proofs.Opening
import Zstandard.Proofs.Surroundings

/-!
# Pumps and streams in two surroundings

A pump between two ends comes to the same as one between ends that are alike, request by request
(`Pump.serve_follows`): only `refill`, `flush` and `complete` meet the ends, and the loops are made
of these. A stream begins with a new pump, so ends serve it alike even where they would not serve
every pump alike, as long as a new one reads its source from them alike (`Pump.StartsAlike`).
-/

namespace Zstandard

/-! ## Pumps -/

namespace Pump

variable {κ ε ε' : Type} {same : ε → ε' → Prop}

/-- Two pumps that differ in their ends alone, which are alike. -/
inductive Beside (same : ε → ε' → Prop) : Pump κ ε → Pump κ ε' → Prop where
  | mk {codec : κ} {ends : ε} {ends' : ε'} {source : SourceBuffer}
      {destination : DestinationBuffer} {readTotal writtenTotal : Nat} {log : Log} :
      same ends ends' →
      Beside same ⟨codec, ends, source, destination, readTotal, writtenTotal, log⟩
        ⟨codec, ends', source, destination, readTotal, writtenTotal, log⟩

theorem refill_tracks [Reader ε] [Reader ε'] (hreads : ReadsAlike same) (turns : Nat) :
    Tracks (Beside same) (refill turns : Work κ ε Refill) (fun turns => refill turns) := by
  rintro _ _ ⟨hsame⟩ answer p' hw
  next codec ends ends' source destination readTotal writtenTotal log =>
  obtain ⟨result, source', ends₁, hrefill⟩ :
      ∃ result source' ends₁, source.refill turns ends = (result, source', ends₁) := ⟨_, _, _, rfl⟩
  obtain ⟨told, rfl⟩ : ∃ told, result = answered told := exists_answered fun hcut => by
    simp only [refill, hrefill, hcut, outcomeOf] at hw
    exact answered_ne answer (Prod.mk.inj hw).1.symm
  obtain ⟨ends₁', hset, hsame₁⟩ := SourceBuffer.refill_alike hreads hsame hrefill
  cases told with
  | error e =>
      simp only [refill, hrefill, outcomeOf, answered_error] at hw
      cases answer <;> cases hw
      refine ⟨⟨codec, ends₁', source', destination, readTotal, writtenTotal, log⟩,
        hset.imp fun turns hturns => ?_, .mk hsame₁⟩
      simp only [refill, hturns, outcomeOf, answered_error]
  | ok told =>
      cases told with
      | read n =>
          simp only [refill, hrefill, outcomeOf, answered_ok] at hw
          cases answer <;> cases hw
          refine ⟨⟨codec, ends₁', source', destination, readTotal + n, writtenTotal, log⟩,
            hset.imp fun turns hturns => ?_, .mk hsame₁⟩
          simp only [refill, hturns, outcomeOf, answered_ok]
      | finished =>
          simp only [refill, hrefill, outcomeOf, answered_ok] at hw
          cases answer <;> cases hw
          refine ⟨⟨codec, ends₁', source', destination, readTotal, writtenTotal, log⟩,
            hset.imp fun turns hturns => ?_, .mk hsame₁⟩
          simp only [refill, hturns, outcomeOf, answered_ok]

theorem feed_tracks [Codec κ] :
    Tracks (Beside same) (feed : Work κ ε Step) (fun _ => (feed : Work κ ε' Step)) := by
  refine Tracks.of_inner ?_
  rintro _ _ ⟨hsame⟩
  next codec ends ends' source destination readTotal writtenTotal log =>
  cases hstep : Codec.step codec source.pending destination.free .feed with
  | mk result codec' =>
      cases result <;> simp only [feed, hstep, outcomeOf]
      · exact ⟨_, _, _, rfl, rfl, .mk hsame⟩
      · exact ⟨_, _, _, rfl, rfl, .mk hsame⟩

theorem close_tracks [Codec κ] :
    Tracks (Beside same) (close : Work κ ε Step) (fun _ => (close : Work κ ε' Step)) := by
  refine Tracks.of_inner ?_
  rintro _ _ ⟨hsame⟩
  next codec ends ends' source destination readTotal writtenTotal log =>
  cases hstep : Codec.step codec .empty destination.free .finish with
  | mk result codec' =>
      cases result <;> simp only [close, hstep, outcomeOf]
      · exact ⟨_, _, _, rfl, rfl, .mk hsame⟩
      · exact ⟨_, _, _, rfl, rfl, .mk hsame⟩

theorem endOfInput_tracks [Codec κ] :
    Tracks (Beside same) (endOfInput : Work κ ε Unit) (fun _ => (endOfInput : Work κ ε' Unit)) := by
  refine Tracks.of_inner ?_
  rintro _ _ ⟨hsame⟩
  next codec ends ends' source destination readTotal writtenTotal log =>
  cases hend : Codec.endOfInput codec <;> simp only [endOfInput, hend, outcomeOf]
  · exact ⟨_, _, _, rfl, rfl, .mk hsame⟩
  · exact ⟨_, _, _, rfl, rfl, .mk hsame⟩

theorem flush_tracks [Writer ε] [Writer ε'] (hwrites : WritesAlike same) (turns : Nat) :
    Tracks (Beside same) (flush turns : Work κ ε Unit) (fun turns => flush turns) := by
  rintro _ _ ⟨hsame⟩ answer p' hw
  next codec ends ends' source destination readTotal writtenTotal log =>
  obtain ⟨result, destination', ends₁, hflush⟩ : ∃ result destination' ends₁,
      destination.flush turns ends = (result, destination', ends₁) := ⟨_, _, _, rfl⟩
  obtain ⟨told, rfl⟩ : ∃ told, result = answered told := exists_answered fun hcut => by
    simp only [flush, hflush, hcut, outcomeOf] at hw
    exact answered_ne answer (Prod.mk.inj hw).1.symm
  obtain ⟨ends₁', hset, hsame₁⟩ := DestinationBuffer.flush_alike hwrites hsame hflush
  cases told with
  | error e =>
      simp only [flush, hflush, outcomeOf, answered_error] at hw
      cases answer <;> cases hw
      refine ⟨_, hset.imp fun turns hturns => ?_, .mk hsame₁⟩
      simp only [flush, hturns, outcomeOf, answered_error]
  | ok =>
      simp only [flush, hflush, outcomeOf, answered_ok] at hw
      cases answer <;> cases hw
      refine ⟨_, hset.imp fun turns hturns => ?_, .mk hsame₁⟩
      simp only [flush, hturns, outcomeOf, answered_ok]

theorem complete_tracks [Writer ε] [Writer ε'] (hwrites : WritesAlike same) (turns : Nat) :
    Tracks (Beside same) (complete turns : Work κ ε Unit) (fun turns => complete turns) := by
  rintro _ _ ⟨hsame⟩ answer p' hw
  next codec ends ends' source destination readTotal writtenTotal log =>
  obtain ⟨result, destination', ends₁, hrest⟩ : ∃ result destination' ends₁,
      destination.writeRemaining turns ends = (result, destination', ends₁) := ⟨_, _, _, rfl⟩
  obtain ⟨told, rfl⟩ : ∃ told, result = answered told := exists_answered fun hcut => by
    simp only [complete, hrest, hcut, outcomeOf] at hw
    exact answered_ne answer (Prod.mk.inj hw).1.symm
  obtain ⟨ends₁', hset, hsame₁⟩ := DestinationBuffer.writeRemaining_alike hwrites hsame hrest
  cases told with
  | error e =>
      simp only [complete, hrest, outcomeOf, answered_error] at hw
      cases answer <;> cases hw
      refine ⟨_, hset.imp fun turns hturns => ?_, .mk hsame₁⟩
      simp only [complete, hturns, outcomeOf, answered_error]
  | ok =>
      obtain ⟨result, ends₂, hflush⟩ : ∃ result ends₂, Writer.flush ends₁ = (result, ends₂) :=
        ⟨_, _, rfl⟩
      obtain ⟨ends₂', hflush', hsame₂⟩ := hwrites.flush hsame₁ hflush
      cases result with
      | error e =>
          simp only [complete, hrest, hflush, outcomeOf, answered_ok] at hw
          cases answer <;> cases hw
          refine ⟨_, hset.imp fun turns hturns => ?_, .mk hsame₂⟩
          simp only [complete, hturns, hflush', outcomeOf, answered_ok, answered_error]
      | ok =>
          simp only [complete, hrest, hflush, outcomeOf, answered_ok] at hw
          cases answer <;> cases hw
          refine ⟨_, hset.imp fun turns hturns => ?_, .mk hsame₂⟩
          simp only [complete, hturns, hflush', outcomeOf, answered_ok]

section Operations

variable [Codec κ] [Writer ε] [Writer ε'] (hwrites : WritesAlike same)

include hwrites

theorem feedPending_tracks : ∀ (turns : Nat) (progress : Bool),
    Tracks (Beside same) (feedPending turns progress : Work κ ε Bool)
      (fun turns => feedPending turns progress) := by
  intro turns
  induction turns with
  | zero => exact fun _ => tracks_outOfTurns _
  | succ turns ih =>
      refine fun progress => Tracks.of_succ (feed_tracks.bind fun step => Tracks.test ?_ ?_ ?_)
      · rintro _ _ ⟨-⟩
        rfl
      · exact (flush_tracks hwrites turns).bind fun _ => ih _
      · exact Tracks.pure _

theorem feedReader_tracks [Reader ε] [Reader ε'] (hreads : ReadsAlike same) :
    ∀ (turns : Nat) (fed : Bool), Tracks (Beside same) (feedReader turns fed : Work κ ε Bool)
      (fun turns => feedReader turns fed) := by
  intro turns
  induction turns with
  | zero => exact fun _ => tracks_outOfTurns _
  | succ turns ih =>
      refine fun fed => Tracks.of_succ ((refill_tracks hreads turns).bind fun result => ?_)
      cases result with
      | read n => exact (feedPending_tracks hwrites turns false).bind fun _ => ih true
      | finished => exact Tracks.pure _

theorem feedRemainder_tracks : ∀ (turns : Nat) (fed : Bool),
    Tracks (Beside same) (feedRemainder turns fed : Work κ ε Bool)
      (fun turns => feedRemainder turns fed) := by
  intro turns
  induction turns with
  | zero => exact fun _ => tracks_outOfTurns _
  | succ turns ih =>
      refine fun fed => Tracks.of_succ (Tracks.test ?_ (Tracks.pure _) ?_)
      · rintro _ _ ⟨-⟩
        rfl
      · refine (feedPending_tracks hwrites turns false).bind fun progress => ?_
        cases progress with
        | true => exact ih true
        | false => exact Tracks.throw _

/-- What is left of reading a source once the reader has no more. -/
theorem feedRest_tracks (turns : Nat) (fed : Bool) :
    Tracks (Beside same)
      (do
        let fed ← feedRemainder turns fed
        if fed then return ()
        else
          let _ ← feedPending turns false : Work κ ε Unit)
      (fun turns => do
        let fed ← feedRemainder turns fed
        if fed then return ()
        else
          let _ ← feedPending turns false) := by
  refine (feedRemainder_tracks hwrites turns fed).bind fun fed => ?_
  cases fed with
  | true => exact Tracks.pure _
  | false => exact (feedPending_tracks hwrites turns false).bind fun _ => Tracks.pure _

theorem readSource_tracks [Reader ε] [Reader ε'] (hreads : ReadsAlike same) (turns : Nat) :
    Tracks (Beside same) (readSource turns : Work κ ε Unit) (fun turns => readSource turns) :=
  (feedReader_tracks hwrites hreads turns false).bind fun fed => feedRest_tracks hwrites turns fed

theorem finish_tracks : ∀ turns : Nat,
    Tracks (Beside same) (finish turns : Work κ ε Unit) (fun turns => finish turns) := by
  intro turns
  induction turns with
  | zero => exact tracks_outOfTurns _
  | succ turns ih =>
      refine Tracks.of_succ (close_tracks.bind fun step => ?_)
      cases step.completion with
      | pending => exact (flush_tracks hwrites turns).bind fun _ => ih
      | done => exact Tracks.pure _

end Operations

/-- What a pump is asked for. -/
inductive Request where
  | readSource
  | finish
  | endOfInput
  | complete
  deriving DecidableEq

/-- Serves one request. -/
def serve [Codec κ] [Reader ε] [Writer ε] (turns : Nat) (request : Request) (p : Pump κ ε) :
    Except (Halt Error) Unit × Pump κ ε :=
  outcomeOf (match request with
    | .readSource => readSource turns p
    | .finish => finish turns p
    | .endOfInput => endOfInput p
    | .complete => complete turns p)

/-- **A request comes to the same** between ends that are alike. -/
theorem serve_follows [Codec κ] [Reader ε] [Reader ε'] [Writer ε] [Writer ε']
    (hreads : ReadsAlike same) (hwrites : WritesAlike same) (turns : Nat) (request : Request)
    {p : Pump κ ε} {p' : Pump κ ε'} (hp : Beside same p p') :
    Follows (Beside same) (serve turns request p) (fun turns => serve turns request p') := by
  cases request with
  | readSource => exact readSource_tracks hwrites hreads turns p p' hp
  | finish => exact finish_tracks hwrites turns p p' hp
  | endOfInput => exact endOfInput_tracks p p' hp
  | complete => exact complete_tracks hwrites turns p p' hp

/-! ### New pumps -/

/-- A new pump. -/
def new (codec : κ) (ends : ε) (sourceLength destinationLength : Nat) (log : Log) : Pump κ ε :=
  ⟨codec, ends, ⟨.empty, 0, sourceLength⟩, ⟨.empty, destinationLength⟩, 0, 0, log⟩

/-- A pump is new once it has been created, and whether it can be does not depend on its ends. -/
theorem create_new (memory : Memory) (codec : κ) (ends : ε) (ends' : ε') (log : Log)
    (sourceLength destinationLength : Nat) :
    (∃ e, create memory codec ends log sourceLength destinationLength = .error e
        ∧ create memory codec ends' log sourceLength destinationLength = .error e)
      ∨ (create memory codec ends log sourceLength destinationLength
          = .ok (new codec ends sourceLength destinationLength log)
        ∧ create memory codec ends' log sourceLength destinationLength
          = .ok (new codec ends' sourceLength destinationLength log)) := by
  unfold create SourceBuffer.create DestinationBuffer.create
  cases memory.grants sourceLength with
  | false => exact Or.inl ⟨_, rfl, rfl⟩
  | true =>
      cases memory.grants destinationLength with
      | false => exact Or.inl ⟨_, rfl, rfl⟩
      | true => exact Or.inr ⟨rfl, rfl⟩

/-- Reading the source of a new pump comes to the same between either ends. -/
def StartsAlike (κ : Type) [Codec κ] [Reader ε] [Reader ε'] [Writer ε] [Writer ε']
    (same : ε → ε' → Prop) (ends : ε) (ends' : ε') : Prop :=
  ∀ (codec : κ) (log : Log) {sourceLength : Nat}, 0 < sourceLength →
    ∀ destinationLength turns : Nat, Follows (Beside same)
      (outcomeOf (readSource turns (new codec ends sourceLength destinationLength log)))
      fun turns => outcomeOf (readSource turns (new codec ends' sourceLength destinationLength log))

section Starts

variable [Codec κ] [Reader ε] [Reader ε'] [Writer ε] [Writer ε'] {ends ends₁ : ε}
  {ends' ends₁' : ε'}

/-- It does between ends that are alike to any pump. -/
theorem startsAlike (hreads : ReadsAlike same) (hwrites : WritesAlike same)
    (hsame : same ends ends') : StartsAlike κ same ends ends' :=
  fun _ _ _ _ _ turns => readSource_tracks hwrites hreads turns _ _ (.mk hsame)

/-- A new pump over a reader that has nothing is done with it after one read. -/
theorem feedReader_dry {codec : κ} {sourceLength : Nat} {log : Log} {b : ByteArray}
    (hlength : 0 < sourceLength) (hread : Reader.read ends sourceLength = (.ok b, ends₁))
    (hsize : b.size = 0) (destinationLength turns : Nat) (fed : Bool) :
    outcomeOf (feedReader turns fed (new codec ends sourceLength destinationLength log))
      = if turns < 2
        then (.error .outOfTurns, new codec ends sourceLength destinationLength log)
        else (.ok fed, new codec ends₁ sourceLength destinationLength log) := by
  have hroom : ¬(0 = sourceLength) := Nat.ne_of_lt hlength
  match turns with
  | 0 => rfl
  | 1 =>
      have hrefill : refill 0 (new codec ends sourceLength destinationLength log)
          = .error .outOfTurns (new codec ends sourceLength destinationLength log) := by
        simp only [refill, new, SourceBuffer.refill, SourceBuffer.compact, SourceBuffer.fill,
          if_true, ByteArray.size_empty, hroom, if_false]
      exact congrArg outcomeOf (bind_of_error hrefill _)
  | turns + 2 =>
      have hrefill : refill (turns + 1) (new codec ends sourceLength destinationLength log)
          = .ok .finished (new codec ends₁ sourceLength destinationLength log) := by
        simp only [refill, new, SourceBuffer.refill, SourceBuffer.compact, SourceBuffer.fill,
          if_true, ByteArray.size_empty, hroom, if_false, Nat.sub_zero, hread, hsize]
      rw [if_neg (by omega)]
      exact congrArg outcomeOf (bind_of_ok hrefill _)

/-- It does as well where the first read gives nothing on either side, since no other follows. -/
theorem startsAlike_of_dry (hwrites : WritesAlike same)
    (hdry : ∀ {room : Nat}, 0 < room → ∃ b b' ends₁ ends₁',
      Reader.read ends room = (.ok b, ends₁) ∧ b.size = 0
      ∧ Reader.read ends' room = (.ok b', ends₁') ∧ b'.size = 0 ∧ same ends₁ ends₁') :
    StartsAlike κ same ends ends' := by
  intro codec log sourceLength hlength destinationLength turns
  obtain ⟨b, b', ends₁, ends₁', hread, hsize, hread', hsize', hsame⟩ := hdry hlength
  refine Follows.bind ?_ fun fed => feedRest_tracks hwrites turns fed
  rw [feedReader_dry hlength hread hsize]
  split
  · exact Follows.outOfTurns
  · refine Follows.intro (.ok false) ⟨2, fun turns' hle => ?_⟩ (.mk hsame)
    dsimp only
    rw [feedReader_dry hlength hread' hsize', if_neg (by omega)]
    rfl

end Starts

end Pump

/-! ## Streams -/

/-- Two transfers that differ in their ends alone, which are alike. -/
structure Transfer.Beside {κ ε ε' : Type} (same : ε → ε' → Prop) (t : Transfer κ ε)
    (t' : Transfer κ ε') : Prop where
  /-- They have come to the same. -/
  result : t'.result = t.result
  /-- They leave the same codec. -/
  codec : t'.codec = t.codec
  /-- The ends are alike. -/
  ends : same t.ends t'.ends
  /-- They have told the same. -/
  log : t'.log = t.log

namespace Stream

variable {κ ε ε' : Type} {same : ε → ε' → Prop} {memory : Memory} {ends : ε} {ends' : ε'}
  {log : Log} {turns : Nat}

/-- A run of work that is followed from a new pump. -/
theorem run_alike {direction : Direction} {sourceLength destinationLength : Nat} {codec : κ}
    {work : Pump.Work κ ε Unit} {work' : Nat → Pump.Work κ ε' Unit}
    (hwork : ∀ log', Follows (Pump.Beside same)
      (outcomeOf (work (.new codec ends sourceLength destinationLength log')))
      fun turns => outcomeOf (work' turns (.new codec ends' sourceLength destinationLength log')))
    (hsame : same ends ends')
    (h : (run memory direction sourceLength destinationLength work codec ends log).result
      ≠ .error .outOfTurns) :
    ∃ t', Settles (fun turns => run memory direction sourceLength destinationLength (work' turns)
        codec ends' log) t'
      ∧ (run memory direction sourceLength destinationLength work codec ends log).Beside same
        t' := by
  unfold run at h ⊢
  rcases Pump.create_new memory codec ends ends' log sourceLength destinationLength with
    ⟨e, hcreate, hcreate'⟩ | ⟨hcreate, hcreate'⟩
  · simp only [hcreate, hcreate']
    exact ⟨_, Settles.const, rfl, rfl, hsame, rfl⟩
  · simp only [hcreate, hcreate'] at h ⊢
    -- the note that the stream was opened changes the log alone, and the pump is still new
    have hnoted := hwork (log.push (.streamOpened direction sourceLength destinationLength))
    have hnote : ∀ turns, (do
          Pump.note (.streamOpened direction sourceLength destinationLength)
          work' turns) (Pump.new codec ends' sourceLength destinationLength log)
        = work' turns (.new codec ends' sourceLength destinationLength
          (log.push (.streamOpened direction sourceLength destinationLength))) := fun _ => rfl
    split at h
    · next p heq =>
      obtain ⟨p', hset, hp⟩ := hnoted.of_ok heq
      refine ⟨⟨.ok (), some p'.codec, p'.ends, p'.log⟩, hset.imp fun turns hturns => ?_, ?_⟩
      · rw [hnote, hturns]
      · obtain ⟨hsame'⟩ := hp
        exact ⟨rfl, rfl, hsame', rfl⟩
    · next x p heq =>
      cases x with
      | outOfTurns => exact absurd rfl h
      | failed e =>
          obtain ⟨p', hset, hp⟩ := hnoted.of_error heq
          refine ⟨⟨.error (.failed e), some p'.codec, p'.ends, p'.log⟩,
            hset.imp fun turns hturns => ?_, ?_⟩
          · rw [hnote, hturns]
          · obtain ⟨hsame'⟩ := hp
            exact ⟨rfl, rfl, hsame', rfl⟩

variable [Codec κ] [Reader ε] [Reader ε'] [Writer ε] [Writer ε']

/-- **Compression comes to the same** between ends that are alike. -/
theorem compress_alike (hstart : Pump.StartsAlike κ same ends ends') (hwrites : WritesAlike same)
    (hsame : same ends ends') {create : CompressorOptions → Except Error κ} {o : CompressorOptions}
    (h : (compress memory create turns o ends log).result ≠ .error .outOfTurns) :
    ∃ t', Settles (fun turns => compress memory create turns o ends' log) t'
      ∧ (compress memory create turns o ends log).Beside same t' := by
  unfold compress at h ⊢
  split
  · exact ⟨_, Settles.const, rfl, rfl, hsame, rfl⟩
  · next hvalidate =>
    rw [hvalidate] at h
    split
    · exact ⟨_, Settles.const, rfl, rfl, hsame, rfl⟩
    · next codec log' hsetUp =>
      simp only [hsetUp] at h
      refine run_alike (fun log' => ?_) hsame h
      exact (hstart codec log' o.sourceLength_pos o.destinationLength turns).bind fun _ =>
        (Pump.finish_tracks hwrites turns).bind fun _ => Pump.complete_tracks hwrites turns

/-- **Decompression comes to the same** between ends that are alike. -/
theorem decompress_alike (hstart : Pump.StartsAlike κ same ends ends') (hwrites : WritesAlike same)
    (hsame : same ends ends') {create : DecompressorOptions → Except Error κ}
    {o : DecompressorOptions}
    (h : (decompress memory create turns o ends log).result ≠ .error .outOfTurns) :
    ∃ t', Settles (fun turns => decompress memory create turns o ends' log) t'
      ∧ (decompress memory create turns o ends log).Beside same t' := by
  unfold decompress at h ⊢
  split
  · exact ⟨_, Settles.const, rfl, rfl, hsame, rfl⟩
  · next hvalidate =>
    rw [hvalidate] at h
    split
    · exact ⟨_, Settles.const, rfl, rfl, hsame, rfl⟩
    · next codec log' hsetUp =>
      simp only [hsetUp] at h
      refine run_alike (fun log' => ?_) hsame h
      exact (hstart codec log' o.sourceLength_pos o.destinationLength turns).bind fun _ =>
        Pump.endOfInput_tracks.bind fun _ => Pump.complete_tracks hwrites turns

end Stream

end Zstandard
