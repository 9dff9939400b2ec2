import Zstandard.Proofs.Surroundings

/-!
# Writers in front of writers that are alike

A writer that compresses or decompresses meets the writer behind it only when it writes its output
out and when it flushes. So in front of two writers that are alike in this, whatever calls it takes
(`WritesAlike`), every request comes to the same, and so do finishing the writer and letting go of
it.

What letting go of a compressing writer comes to is told to nobody, and so is a second attempt to
finish it. `releasing` and `finishing` are the same operations, but they tell whether their turns
were enough (`releasing_eq`, `finishing_eq`).
-/

namespace Zstandard

/-! ## Compressing writers -/

namespace CompressingWriter

variable {κ ω ω' : Type} {same : ω → ω' → Prop}

/-- Two writers that differ in the writers behind them alone, which are alike. -/
inductive Beside (same : ω → ω' → Prop) :
    CompressingWriter κ ω → CompressingWriter κ ω' → Prop where
  | mk {writer : ω} {writer' : ω'} {session : Session κ} :
      same writer writer' → Beside same ⟨writer, session⟩ ⟨writer', session⟩

theorem onSession_tracks {α : Type} (operation : Session κ → Except Error α × Session κ) :
    Tracks (Beside same) (onSession operation : Work κ ω α)
      (fun _ => (onSession operation : Work κ ω' α)) := by
  refine Tracks.of_inner ?_
  rintro _ _ ⟨hsame⟩
  next writer writer' session =>
  cases hop : operation session with
  | mk result session' =>
      cases result <;> simp only [onSession, hop, outcomeOf]
      · exact ⟨_, _, _, rfl, rfl, .mk hsame⟩
      · exact ⟨_, _, _, rfl, rfl, .mk hsame⟩

variable [Writer ω] [Writer ω'] (hwrites : WritesAlike same)

include hwrites

theorem deliver_tracks (turns : Nat) (bytes : ByteArray) :
    Tracks (Beside same) (deliver turns bytes : Work κ ω Unit)
      (fun turns => deliver turns bytes) := by
  rintro _ _ ⟨hsame⟩ answer c' hw
  next writer writer' session =>
  obtain ⟨result, w₁, hwrite⟩ :
      ∃ result w₁, writeAll turns writer (.ofBytes bytes) = (result, w₁) := ⟨_, _, rfl⟩
  obtain ⟨told, rfl⟩ : ∃ told, result = answered told := exists_answered fun hcut => by
    simp only [deliver, hwrite, hcut, outcomeOf] at hw
    exact answered_ne answer (Prod.mk.inj hw).1.symm
  obtain ⟨w₁', hset, hsame₁⟩ := hwrites.write hsame hwrite
  cases told with
  | error e =>
      simp only [deliver, hwrite, outcomeOf, answered_error] at hw
      cases answer <;> cases hw
      refine ⟨_, hset.imp fun turns hturns => ?_, .mk hsame₁⟩
      simp only [deliver, hturns, outcomeOf, answered_error]
      rfl
  | ok =>
      simp only [deliver, hwrite, outcomeOf, answered_ok] at hw
      cases answer <;> cases hw
      refine ⟨_, hset.imp fun turns hturns => ?_, .mk hsame₁⟩
      simp only [deliver, hturns, outcomeOf, answered_ok]

theorem flushWriter_tracks :
    Tracks (Beside same) (flushWriter : Work κ ω Unit)
      (fun _ => (flushWriter : Work κ ω' Unit)) := by
  refine Tracks.of_inner ?_
  rintro _ _ ⟨hsame⟩
  next writer writer' session =>
  obtain ⟨result, w₁, hflush⟩ : ∃ result w₁, Writer.flush writer = (result, w₁) := ⟨_, _, rfl⟩
  obtain ⟨w₁', hflush', hsame₁⟩ := hwrites.flush hsame hflush
  cases result <;> simp only [flushWriter, hflush, hflush', outcomeOf]
  · exact ⟨_, _, _, rfl, rfl, .mk hsame₁⟩
  · exact ⟨_, _, _, rfl, rfl, .mk hsame₁⟩

theorem drain_tracks (turns : Nat) :
    Tracks (Beside same) (drain turns : Work κ ω Nat) (fun turns => drain turns) :=
  (onSession_tracks _).bind fun bytes => (deliver_tracks hwrites turns bytes).bind fun _ =>
    Tracks.pure _

theorem drainWhile_tracks (request : Session κ → Except Error Bool × Session κ) :
    ∀ turns : Nat, Tracks (Beside same) (drainWhile request turns : Work κ ω Unit)
      (fun turns => drainWhile request turns) := by
  intro turns
  induction turns with
  | zero => exact tracks_outOfTurns _
  | succ turns ih =>
      refine Tracks.of_succ ((onSession_tracks _).bind fun more =>
        (drain_tracks hwrites turns).bind fun _ => ?_)
      cases more with
      | true => exact ih
      | false => exact Tracks.pure _

variable [Codec κ]

theorem finishFrame_tracks (turns : Nat) :
    Tracks (Beside same) (finishFrame turns : Work κ ω Unit) (fun turns => finishFrame turns) :=
  (drainWhile_tracks hwrites _ turns).bind fun _ => flushWriter_tracks hwrites

theorem flushFrame_tracks (turns : Nat) :
    Tracks (Beside same) (flushFrame turns : Work κ ω Unit) (fun turns => flushFrame turns) :=
  (drainWhile_tracks hwrites _ turns).bind fun _ => flushWriter_tracks hwrites

theorem writeChunk_tracks (input : Slice) : ∀ turns : Nat,
    Tracks (Beside same) (writeChunk input turns : Work κ ω Nat)
      (fun turns => writeChunk input turns) := by
  intro turns
  induction turns with
  | zero => exact tracks_outOfTurns _
  | succ turns ih =>
      refine Tracks.of_succ ((onSession_tracks _).bind fun p => ?_)
      -- what comes after the push, and after the drain of a full destination, is the same
      have hrest : Tracks (Beside same)
          (if p.consumed ≠ 0 ∨ input.isEmpty then pure p.consumed
            else if p.full then writeChunk input turns
            else throw (.failed .notEnoughDestination) : Work κ ω Nat)
          (fun turns => if p.consumed ≠ 0 ∨ input.isEmpty then pure p.consumed
            else if p.full then writeChunk input turns
            else throw (.failed .notEnoughDestination)) := by
        split
        · exact Tracks.pure _
        · split
          · exact ih
          · exact Tracks.throw _
      cases hfull : p.full with
      | false =>
          rw [hfull] at hrest
          exact hrest
      | true =>
          rw [hfull] at hrest
          refine (drain_tracks hwrites turns).bind fun n => ?_
          by_cases hn : n = 0
          · simp only [if_pos hn]
            exact Tracks.throw _
          · simp only [if_neg hn]
            exact hrest

omit [Writer ω] [Writer ω'] [Codec κ] hwrites in
/-- What is tracked comes to the same for the caller. -/
theorem outcome_follows {α : Type} {work : Work κ ω α} {work' : Nat → Work κ ω' α}
    (h : Tracks (Beside same) work work') {c : CompressingWriter κ ω} {d : CompressingWriter κ ω'}
    (hcd : Beside same c d) :
    Follows (Beside same) (outcome (work c)) (fun turns => outcome (work' turns d)) := by
  intro answer c' hw
  cases hc : work c with
  | ok a c₁ =>
      rw [hc] at hw
      cases answer <;> cases hw
      obtain ⟨d', hset, h'⟩ := h.of_ok hcd hc
      exact ⟨d', hset.imp fun turns hturns => by rw [hturns]; rfl, h'⟩
  | error x c₁ =>
      rw [hc] at hw
      cases x <;> (cases answer <;> cases hw)
      obtain ⟨d', hset, h'⟩ := h.of_error hcd hc
      exact ⟨d', hset.imp fun turns hturns => by rw [hturns]; rfl, h'⟩

/-- **A request comes to the same** in front of writers that are alike. -/
theorem serve_follows {c : CompressingWriter κ ω} {d : CompressingWriter κ ω'}
    (hcd : Beside same c d) (turns : Nat) (request : Request) :
    Follows (Beside same) (serve turns request c) (fun turns => serve turns request d) := by
  cases request with
  | write part =>
      exact (outcome_follows (writeChunk_tracks hwrites part turns) hcd).map Reply.took
  | flush =>
      exact (outcome_follows (flushFrame_tracks hwrites turns) hcd).map fun _ => Reply.flushed

omit [Writer ω'] hwrites in
/-- Lets go of the writer, and tells whether that has come to its end. -/
def releasing (turns : Nat) (c : CompressingWriter κ ω) :
    Except (Halt Error) Unit × CompressingWriter κ ω :=
  if c.session.isFinished then (.ok (), c)
  else
    match finishFrame turns c with
    | .ok () c => (.ok (), c)
    | .error (.failed _) c => (.ok (), c)
    | .error .outOfTurns c => (.error .outOfTurns, c)

omit [Writer ω'] hwrites in
/-- Ends the frame, and tells whether a second attempt, if there was one, has come to its end. -/
def finishing (turns : Nat) (c : CompressingWriter κ ω) :
    Except (Halt Error) Unit × CompressingWriter κ ω :=
  match finishFrame turns c with
  | .ok () c => (.ok (), c)
  | .error .outOfTurns c => (.error .outOfTurns, c)
  | .error (.failed e) c =>
    match releasing turns c with
    | (.ok (), c) => (.error (.failed e), c)
    | (.error h, c) => (.error h, c)

omit [Writer ω'] hwrites in
theorem releasing_eq {turns : Nat} {c c' : CompressingWriter κ ω} {answer : Except Error Unit}
    (h : releasing turns c = (answered answer, c')) : c.release turns = c' := by
  unfold releasing at h
  unfold release
  split at h
  · next hfinished =>
    rw [if_pos hfinished]
    exact (Prod.mk.inj h).2
  · next hfinished =>
    rw [if_neg hfinished]
    split at h
    · next heq => rw [heq]; exact (Prod.mk.inj h).2
    · next heq => rw [heq]; exact (Prod.mk.inj h).2
    · exact absurd (Prod.mk.inj h).1.symm (answered_ne answer)

omit [Writer ω'] hwrites in
/-- What has come to its end is what finishing does. -/
theorem finishing_eq {turns : Nat} {c c' : CompressingWriter κ ω} {answer : Except Error Unit}
    (h : finishing turns c = (answered answer, c')) : c.finish turns = (answered answer, c') := by
  unfold finishing at h
  unfold finish
  split at h
  · next heq => rw [heq]; exact h
  · exact absurd (Prod.mk.inj h).1.symm (answered_ne answer)
  · next e c₁ heq =>
    rw [heq]
    dsimp only
    split at h
    · next c₂ hrelease =>
      rw [releasing_eq (show _ = (answered (.ok ()), _) from hrelease)]
      exact h
    · next x c₂ hrelease =>
      cases x with
      | outOfTurns => exact absurd (Prod.mk.inj h).1.symm (answered_ne answer)
      | failed e' =>
          unfold releasing at hrelease
          split at hrelease
          · cases hrelease
          · split at hrelease <;> cases hrelease

/-- **Letting go of a writer comes to the same** in front of writers that are alike. -/
theorem releasing_follows {c : CompressingWriter κ ω} {d : CompressingWriter κ ω'}
    (hcd : Beside same c d) (turns : Nat) :
    Follows (Beside same) (releasing turns c) (fun turns => releasing turns d) := by
  have hfinished : d.session.isFinished = c.session.isFinished := by
    obtain ⟨-⟩ := hcd
    rfl
  have htracks := finishFrame_tracks (κ := κ) hwrites turns
  unfold releasing
  rw [hfinished]
  split
  · exact Follows.intro (.ok ()) Settles.const hcd
  · split
    · next hc =>
      obtain ⟨d', hset, h'⟩ := htracks.of_ok hcd hc
      exact Follows.intro (.ok ()) (hset.imp fun turns hturns => by rw [hturns]; rfl) h'
    · next hc =>
      obtain ⟨d', hset, h'⟩ := htracks.of_error hcd hc
      exact Follows.intro (.ok ()) (hset.imp fun turns hturns => by rw [hturns]; rfl) h'
    · exact Follows.outOfTurns

/-- **Finishing comes to the same** in front of writers that are alike. -/
theorem finishing_follows {c : CompressingWriter κ ω} {d : CompressingWriter κ ω'}
    (hcd : Beside same c d) (turns : Nat) :
    Follows (Beside same) (finishing turns c) (fun turns => finishing turns d) := by
  have htracks := finishFrame_tracks (κ := κ) hwrites turns
  unfold finishing
  split
  · next hc =>
    obtain ⟨d', hset, h'⟩ := htracks.of_ok hcd hc
    exact Follows.intro (.ok ()) (hset.imp fun turns hturns => by rw [hturns]; rfl) h'
  · exact Follows.outOfTurns
  · next e c₁ hc =>
    obtain ⟨d₁, hset, h₁⟩ := htracks.of_error hcd hc
    -- a second attempt comes after the first
    intro answer c' hw
    obtain ⟨result, c₂, hrelease⟩ : ∃ result c₂, releasing turns c₁ = (result, c₂) := ⟨_, _, rfl⟩
    rw [hrelease] at hw
    cases result with
    | error x =>
        obtain ⟨hresult, rfl⟩ := Prod.mk.inj hw
        obtain ⟨d', hset', h'⟩ := releasing_follows hwrites h₁ turns answer c₂
          (by rw [hrelease, hresult])
        refine ⟨d', hset.imp₂ hset' fun turns hfirst hsecond => ?_, h'⟩
        rw [hfirst]
        dsimp only
        rw [hsecond, ← hresult]
    | ok =>
        obtain ⟨d', hset', h'⟩ := releasing_follows hwrites h₁ turns (.ok ()) c₂ hrelease
        obtain ⟨hresult, rfl⟩ := Prod.mk.inj hw
        refine ⟨d', hset.imp₂ hset' fun turns hfirst hsecond => ?_, h'⟩
        rw [hfirst]
        dsimp only
        rw [hsecond, answered_ok, ← hresult]

end CompressingWriter

/-! ## Decompressing writers -/

namespace DecompressingWriter

variable {κ ω ω' : Type} {same : ω → ω' → Prop}

/-- Two writers that differ in the writers behind them alone, which are alike. -/
inductive Beside (same : ω → ω' → Prop) :
    DecompressingWriter κ ω → DecompressingWriter κ ω' → Prop where
  | mk {writer : ω} {writer' : ω'} {session : Session κ} :
      same writer writer' → Beside same ⟨writer, session⟩ ⟨writer', session⟩

theorem onSession_tracks {α : Type} (operation : Session κ → Except Error α × Session κ) :
    Tracks (Beside same) (onSession operation : Work κ ω α)
      (fun _ => (onSession operation : Work κ ω' α)) := by
  refine Tracks.of_inner ?_
  rintro _ _ ⟨hsame⟩
  next writer writer' session =>
  cases hop : operation session with
  | mk result session' =>
      cases result <;> simp only [onSession, hop, outcomeOf]
      · exact ⟨_, _, _, rfl, rfl, .mk hsame⟩
      · exact ⟨_, _, _, rfl, rfl, .mk hsame⟩

variable [Writer ω] [Writer ω'] (hwrites : WritesAlike same)

include hwrites

theorem flushWriter_tracks :
    Tracks (Beside same) (flushWriter : Work κ ω Unit)
      (fun _ => (flushWriter : Work κ ω' Unit)) := by
  refine Tracks.of_inner ?_
  rintro _ _ ⟨hsame⟩
  next writer writer' session =>
  obtain ⟨result, w₁, hflush⟩ : ∃ result w₁, Writer.flush writer = (result, w₁) := ⟨_, _, rfl⟩
  obtain ⟨w₁', hflush', hsame₁⟩ := hwrites.flush hsame hflush
  cases result <;> simp only [flushWriter, hflush, hflush', outcomeOf]
  · exact ⟨_, _, _, rfl, rfl, .mk hsame₁⟩
  · exact ⟨_, _, _, rfl, rfl, .mk hsame₁⟩

variable [Codec κ]

theorem pushThrough_tracks (turns : Nat) (input : Slice) :
    Tracks (Beside same) (pushThrough turns input : Work κ ω Pushed)
      (fun turns => pushThrough turns input) := by
  refine (onSession_tracks _).bind fun p => (onSession_tracks _).bind fun bytes => ?_
  rintro _ _ ⟨hsame⟩ answer c' hw
  next writer writer' session =>
  obtain ⟨result, w₁, hwrite⟩ :
      ∃ result w₁, writeAll turns writer (.ofBytes bytes) = (result, w₁) := ⟨_, _, rfl⟩
  obtain ⟨told, rfl⟩ : ∃ told, result = answered told := exists_answered fun hcut => by
    simp only [hwrite, hcut, outcomeOf] at hw
    exact answered_ne answer (Prod.mk.inj hw).1.symm
  obtain ⟨w₁', hset, hsame₁⟩ := hwrites.write hsame hwrite
  cases told with
  | error e =>
      simp only [hwrite, outcomeOf, answered_error] at hw
      cases answer <;> cases hw
      refine ⟨_, hset.imp fun turns hturns => ?_, .mk hsame₁⟩
      simp only [hturns, outcomeOf, answered_error]
      rfl
  | ok =>
      simp only [hwrite, outcomeOf, answered_ok] at hw
      cases answer <;> cases hw
      refine ⟨_, hset.imp fun turns hturns => ?_, .mk hsame₁⟩
      simp only [hturns, outcomeOf, answered_ok]

theorem writeChunk_tracks (input : Slice) : ∀ turns : Nat,
    Tracks (Beside same) (writeChunk input turns : Work κ ω Nat)
      (fun turns => writeChunk input turns) := by
  intro turns
  induction turns with
  | zero => exact tracks_outOfTurns _
  | succ turns ih =>
      refine Tracks.of_succ ((pushThrough_tracks hwrites turns input).bind fun p => ?_)
      by_cases hsome : p.consumed ≠ 0 ∨ input.isEmpty = true
      · simp only [if_pos hsome]
        exact Tracks.pure _
      · simp only [if_neg hsome]
        cases p.full with
        | true => exact ih
        | false => exact Tracks.throw _

theorem settle_tracks : ∀ turns : Nat,
    Tracks (Beside same) (settle turns : Work κ ω Unit) (fun turns => settle turns) := by
  intro turns
  induction turns with
  | zero => exact tracks_outOfTurns _
  | succ turns ih =>
      refine Tracks.of_succ ((pushThrough_tracks hwrites turns .empty).bind fun p => ?_)
      cases p.full with
      | true => exact ih
      | false => exact Tracks.pure _

/-- **A request comes to the same** in front of writers that are alike. -/
theorem serve_follows {d : DecompressingWriter κ ω} {d' : DecompressingWriter κ ω'}
    (hdd' : Beside same d d') (turns : Nat) (request : Request) :
    Follows (Beside same) (serve turns request d) (fun turns => serve turns request d') := by
  cases request with
  | write part =>
      refine Follows.map (f := Reply.took) ?_
      have htracks := writeChunk_tracks (κ := κ) hwrites part turns
      intro answer d₁ hw
      split at hw
      · next hd =>
        cases answer <;> cases hw
        obtain ⟨d₂, hset, h'⟩ := htracks.of_ok hdd' hd
        exact ⟨d₂, hset.imp fun turns hturns => by simp only [hturns]; rfl, h'⟩
      · next x _ hd =>
        cases x <;> (cases answer <;> cases hw)
        obtain ⟨d₂, hset, h'⟩ := htracks.of_error hdd' hd
        exact ⟨d₂, hset.imp fun turns hturns => by simp only [hturns]; rfl, h'⟩
  | flush =>
      obtain ⟨hsame⟩ := hdd'
      next writer writer' session =>
      obtain ⟨result, w₁, hflush⟩ : ∃ result w₁, Writer.flush writer = (result, w₁) := ⟨_, _, rfl⟩
      obtain ⟨w₁', hflush', hsame₁⟩ := hwrites.flush hsame hflush
      cases result with
      | ok =>
          simp only [serve, flush, hflush, hflush']
          exact Follows.intro (.ok Reply.flushed) Settles.const (Beside.mk hsame₁)
      | error e =>
          simp only [serve, flush, hflush, hflush']
          exact Follows.intro (.error e) Settles.const (Beside.mk hsame₁)

/-- **Finishing comes to the same** in front of writers that are alike. -/
theorem finish_follows {d : DecompressingWriter κ ω} {d' : DecompressingWriter κ ω'}
    (hdd' : Beside same d d') (turns : Nat) :
    Follows (Beside same) (d.finish turns) (fun turns => d'.finish turns) := by
  have hclose : Tracks (Beside same)
      (modify fun d => { d with session := d.session.close } : Work κ ω Unit)
      (fun _ => (modify fun d => { d with session := d.session.close } : Work κ ω' Unit)) :=
    Tracks.of_inner fun ⟨hsame⟩ => ⟨_, _, _, rfl, rfl, .mk hsame⟩
  have htracks := (settle_tracks (κ := κ) hwrites turns).bind fun _ =>
    (onSession_tracks fun s => (s.endOfInput, s)).bind fun _ =>
      (flushWriter_tracks hwrites).bind fun _ => hclose
  intro answer d₁ hw
  unfold finish at hw
  dsimp only at hw
  split at hw
  · next hd =>
    cases answer <;> cases hw
    obtain ⟨d₂, hset, h'⟩ := htracks.of_ok hdd' hd
    exact ⟨d₂, hset.imp fun turns hturns => by simp only [finish, hturns]; rfl, h'⟩
  · next x _ hd =>
    cases x <;> (cases answer <;> cases hw)
    obtain ⟨d₂, hset, h'⟩ := htracks.of_error hdd' hd
    exact ⟨d₂, hset.imp fun turns hturns => by simp only [finish, hturns]; rfl, h'⟩

end DecompressingWriter

end Zstandard
