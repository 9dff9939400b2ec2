import Zstandard.Adapter.Reading
import Zstandard.Proofs.Protocol

/-!
# What a compressing reader keeps

A compressing reader loses nothing, not even when the reader behind or the codec fails: what was
received has been used or is pending, and what was put out has been served or is in the output
(`Kept`). That holds after every read, whatever comes of it, and a frame that has been closed
has all of the source in it.
-/

namespace Zstandard

namespace CompressingReader

variable {κ ρ : Type} [Codec κ]

/-- What holds of a reader after every read. -/
structure Kept (start : κ) (calls : List StepCall) (served : List UInt8)
    (c : CompressingReader κ (Observed ρ)) : Prop where
  /-- The session is open, or shut. -/
  session : c.session.Open start calls ∨ (c.session.Shut start calls ∧ c.finishing = true)
  /-- The session is drained. -/
  drained : c.session.destination.bytes = .empty
  /-- The calls were offered what was received, in order. -/
  offers : Each (Offers (receivedBy c.reader.calls)) calls
  /-- None of them asks for a flush. -/
  unflushed : Unflushed calls
  /-- What was received has been used, or is pending. -/
  source_eq : receivedBy c.reader.calls = takenBy calls ++ c.source.pending.toList
  /-- What was put out has been served, or is in the output. -/
  output_eq : givenBy calls = served ++ c.output.toList
  /-- The source keeps to its bounds. -/
  fits : c.source.Fits
  /-- As long as the reader may have more, the frame is not to be closed. -/
  reading : c.finishing = false → Unfinished calls ∧ Unended c.reader.calls
  /-- The frame is to be closed when the reader has no more and all has been used. -/
  closing : c.finishing = true → c.source.pending.toList = [] ∧ Exhausted c.reader.calls

variable {start : κ} {calls : List StepCall} {served : List UInt8}
  {c : CompressingReader κ (Observed ρ)}

/-- A session that may go on has room. -/
theorem room_of_drained {s : Session κ} (h : s.Open start calls)
    (hdrained : s.destination.bytes = .empty) : s.destination.isFull = false := by
  refine beq_eq_false_iff_ne.mpr ?_
  rw [hdrained]
  exact Nat.ne_of_lt h.capacity

/-! ## Single moves -/

omit [Codec κ] in
/-- Taking the output of a session that has put out `produced`. -/
theorem collect_of_append {reader : Observed ρ} {source : SourceBuffer} {codec : κ}
    {destination : DestinationBuffer} {produced : ByteArray} {phase : Phase} {output : Slice}
    {full finishing : Bool} (hphase : phase ≠ .closed) (hempty : destination.bytes = .empty) :
    collect ⟨reader, source, ⟨codec, destination.append produced, phase⟩, output, full, finishing⟩
      = (.ok (), ⟨reader, source, ⟨codec, destination, phase⟩, .ofBytes produced, full,
          finishing⟩) := by
  obtain ⟨bytes, capacity⟩ := destination
  obtain rfl : bytes = .empty := hempty
  have happ : ByteArray.empty ++ produced = produced := ByteArray.empty_append
  simp only [collect, Session.drain_of_ne_closed _ _ hphase, DestinationBuffer.append,
    DestinationBuffer.rewind, happ]

/-- **One more call** keeps what a reader keeps, if the session does and no byte is lost. -/
theorem Kept.snoc {call : StepCall} {session : Session κ} {source : SourceBuffer} {output : Slice}
    {full : Bool} (h : Kept start calls served c)
    (hsession : session.Open start (calls ++ [call])
      ∨ (session.Shut start (calls ++ [call]) ∧ c.finishing = true))
    (hdrained : session.destination.bytes = .empty)
    (hoffers : Offers (receivedBy c.reader.calls) calls call)
    (hunflushed : call.directive ≠ .flush)
    (hsource : c.source.pending.toList = call.taken ++ source.pending.toList)
    (houtput : c.output.toList ++ call.given = output.toList) (hfits : source.Fits)
    (hreading : c.finishing = false → call.directive ≠ .finish) :
    Kept start (calls ++ [call]) served
      ⟨c.reader, source, session, output, full, c.finishing⟩ where
  session := hsession
  drained := hdrained
  offers := each_snoc.mpr ⟨h.offers, hoffers⟩
  unflushed := h.unflushed.snoc hunflushed
  source_eq := by
    rw [h.source_eq, hsource, takenBy_append, takenBy_cons, takenBy_nil, List.append_nil,
      List.append_assoc]
  output_eq := by
    rw [← houtput, givenBy_append, h.output_eq, givenBy_cons, givenBy_nil, List.append_nil,
      List.append_assoc]
  fits := hfits
  reading hfinishing :=
    ⟨(h.reading hfinishing).1.snoc (hreading hfinishing), (h.reading hfinishing).2⟩
  closing hfinishing := by
    obtain ⟨hnil, hexhausted⟩ := h.closing hfinishing
    rw [hnil] at hsource
    exact ⟨(List.append_eq_nil_iff.mp hsource.symm).2, hexhausted⟩

section Advance

variable {codec : κ}

/-- A push that succeeds hands what the codec put out to the output. -/
theorem advance_ok {s : Step} (hopen : c.session.Open start calls)
    (hdrained : c.session.destination.bytes = .empty)
    (hstep : Codec.step c.session.codec c.source.pending c.session.destination.free .feed
      = (.ok s, codec)) :
    c.advance = (.ok (), ⟨c.reader, c.source.consume s.consumed,
      ⟨codec, c.session.destination, .active⟩, .ofBytes s.produced,
      (c.session.destination.append s.produced).isFull, c.finishing⟩) := by
  obtain ⟨reader, source, ⟨codec₀, destination, phase⟩, output, full, finishing⟩ := c
  obtain rfl : phase = .active := hopen.active
  dsimp only at hstep
  simp only [advance, Session.push_ok hstep]
  exact collect_of_append (by decide) hdrained

theorem advance_error {e : Error} (hopen : c.session.Open start calls)
    (hstep : Codec.step c.session.codec c.source.pending c.session.destination.free .feed
      = (.error e, codec)) :
    c.advance = (.error (.failed e), ⟨c.reader, c.source,
      ⟨codec, c.session.destination, .active⟩, c.output, c.destinationFull, c.finishing⟩) := by
  obtain ⟨reader, source, ⟨codec₀, destination, phase⟩, output, full, finishing⟩ := c
  obtain rfl : phase = .active := hopen.active
  simp only [advance, Session.push_error hstep]

/-- What a push comes to is kept. -/
theorem Kept.advanced {s : Step} {full : Bool} (h : Kept start calls served c)
    (hopen : c.session.Open start calls) (hfinishing : c.finishing = false)
    (houtput : c.output.toList = [])
    (hstep : Codec.step c.session.codec c.source.pending c.session.destination.free .feed
      = (.ok s, codec)) :
    Kept start (calls ++ [⟨c.source.pending, c.session.destination.free, .feed, .ok s⟩]) served
      ⟨c.reader, c.source.consume s.consumed, ⟨codec, c.session.destination, .active⟩,
        .ofBytes s.produced, full, c.finishing⟩ := by
  have hroom := room_of_drained hopen h.drained
  have hcall := hopen.may_feed (h.reading hfinishing).1 hroom c.source.pending (.ok s)
  have hstepped := hopen.stepped hstep hcall fun hd => by cases hd
  have hoffers : Offers (receivedBy c.reader.calls) calls
      ⟨c.source.pending, c.session.destination.free, .feed, .ok s⟩ :=
    offers_feed (h.source_eq ▸ List.prefix_refl _)
  refine h.snoc (Or.inl ?_) h.drained hoffers (fun hd => by cases hd) ?_ ?_
    (h.fits.consume (Codec.consumed_le hstep)) fun _ hd => by cases hd
  · exact ⟨hstepped.steps, hstepped.protocol, hstepped.unclosed, hopen.fits, hopen.capacity, rfl⟩
  · rw [SourceBuffer.toList_pending_consume]
    exact (List.take_append_drop _ _).symm
  · rw [houtput, Slice.toList_ofBytes]
    rfl

theorem Kept.advanced_error {e : Error} (h : Kept start calls served c)
    (hopen : c.session.Open start calls) (hfinishing : c.finishing = false)
    (hstep : Codec.step c.session.codec c.source.pending c.session.destination.free .feed
      = (.error e, codec)) :
    Kept start (calls ++ [⟨c.source.pending, c.session.destination.free, .feed, .error e⟩]) served
      ⟨c.reader, c.source, ⟨codec, c.session.destination, .active⟩, c.output, c.destinationFull,
        c.finishing⟩ := by
  have hroom := room_of_drained hopen h.drained
  have hcall := hopen.may_feed (h.reading hfinishing).1 hroom c.source.pending (.error e)
  exact h.snoc (Or.inl (hopen.failed hstep hcall)) h.drained
    (offers_feed (h.source_eq ▸ List.prefix_refl _)) (fun hd => by cases hd) rfl
    (List.append_nil _) h.fits fun _ hd => by cases hd

/-- **A push**, whatever comes of it, keeps what a reader keeps. -/
theorem Kept.advance (h : Kept start calls served c) (hopen : c.session.Open start calls)
    (hfinishing : c.finishing = false) (houtput : c.output.toList = []) :
    ∃ calls', Kept start calls' served c.advance.2 := by
  obtain ⟨result, codec, hstep⟩ : ∃ result codec, Codec.step c.session.codec c.source.pending
      c.session.destination.free .feed = (result, codec) := ⟨_, _, rfl⟩
  cases result with
  | ok s =>
      rw [advance_ok hopen h.drained hstep]
      exact ⟨_, h.advanced hopen hfinishing houtput hstep⟩
  | error e =>
      rw [advance_error hopen hstep]
      exact ⟨_, h.advanced_error hopen hfinishing hstep⟩

end Advance

/-! ## Filling and reading -/

/-- Whether the next piece of output needs a read first. -/
def needsInput (c : CompressingReader κ (Observed ρ)) : Bool :=
  c.source.pending.isEmpty && !c.destinationFull

section Fill

variable [Reader ρ] {codec : κ} {turns : Nat}

/-! ### One fill -/

section Turns

variable {source' : SourceBuffer} {reader' : Observed ρ}

theorem fill_of_not_needsInput (hfinishing : c.finishing = false) (h : c.needsInput = false) :
    c.fill turns = c.advance := by
  unfold needsInput at h
  simp only [fill, hfinishing, h, Bool.false_eq_true, if_false]

theorem fill_of_read {n : Nat} (hfinishing : c.finishing = false) (h : c.needsInput = true)
    (hrefill : c.source.refill turns c.reader = (.ok (.read n), source', reader')) :
    c.fill turns = advance { c with reader := reader', source := source' } := by
  obtain ⟨reader, source, session, output, full, finishing⟩ := c
  unfold needsInput at h
  dsimp only at hrefill h hfinishing
  simp only [fill, hfinishing, h, Bool.false_eq_true, if_false, if_true, hrefill]

theorem fill_of_finished (hfinishing : c.finishing = false) (h : c.needsInput = true)
    (hrefill : c.source.refill turns c.reader = (.ok .finished, source', reader')) :
    c.fill turns
      = (.ok (), { c with source := source', reader := reader', finishing := true }) := by
  obtain ⟨reader, source, session, output, full, finishing⟩ := c
  unfold needsInput at h
  dsimp only at hrefill h hfinishing
  simp only [fill, hfinishing, h, Bool.false_eq_true, if_false, if_true, hrefill]

theorem fill_of_failure {x : Halt Error} (hfinishing : c.finishing = false)
    (h : c.needsInput = true)
    (hrefill : c.source.refill turns c.reader = (.error x, source', reader')) :
    c.fill turns = (.error x, { c with source := source', reader := reader' }) := by
  obtain ⟨reader, source, session, output, full, finishing⟩ := c
  unfold needsInput at h
  dsimp only at hrefill h hfinishing
  simp only [fill, hfinishing, h, Bool.false_eq_true, if_false, if_true, hrefill]

theorem prepare_of_ready (h : (!c.output.isEmpty || c.session.isFinished) = true) :
    c.prepare (turns + 1) = (.ok (), c) := by
  simp only [prepare, h, if_true]

theorem prepare_of_fill {c' : CompressingReader κ (Observed ρ)}
    (h : (!c.output.isEmpty || c.session.isFinished) = false)
    (hfill : c.fill turns = (.ok (), c')) : c.prepare (turns + 1) = c'.prepare turns := by
  simp only [prepare, h, Bool.false_eq_true, if_false, hfill]

theorem prepare_of_failure {c' : CompressingReader κ (Observed ρ)} {x : Halt Error}
    (h : (!c.output.isEmpty || c.session.isFinished) = false)
    (hfill : c.fill turns = (.error x, c')) : c.prepare (turns + 1) = (.error x, c') := by
  simp only [prepare, h, Bool.false_eq_true, if_false, hfill]

end Turns

/-! ### Closing the frame -/

/-- A step that goes on closing the frame. -/
theorem fill_of_pending {s : Step} (hopen : c.session.Open start calls)
    (hdrained : c.session.destination.bytes = .empty) (hfinishing : c.finishing = true)
    (hstep : Codec.step c.session.codec .empty c.session.destination.free .finish
      = (.ok s, codec)) (hs : s.completion = .pending) :
    c.fill turns = (.ok (), ⟨c.reader, c.source, ⟨codec, c.session.destination, .active⟩,
      .ofBytes s.produced, c.destinationFull, c.finishing⟩) := by
  obtain ⟨reader, source, ⟨codec₀, destination, phase⟩, output, full, finishing⟩ := c
  obtain rfl : phase = .active := hopen.active
  obtain rfl : finishing = true := hfinishing
  dsimp only at hstep
  simp only [fill, if_true, Session.finish_pending hstep hs]
  exact collect_of_append (fun hphase => by cases hphase) hdrained

/-- The step that has closed the frame. -/
theorem fill_of_done {s : Step} (hopen : c.session.Open start calls)
    (hdrained : c.session.destination.bytes = .empty) (hfinishing : c.finishing = true)
    (hstep : Codec.step c.session.codec .empty c.session.destination.free .finish
      = (.ok s, codec)) (hs : s.completion = .done) :
    c.fill turns = (.ok (), ⟨c.reader, c.source, ⟨codec, c.session.destination, .finished⟩,
      .ofBytes s.produced, c.destinationFull, c.finishing⟩) := by
  obtain ⟨reader, source, ⟨codec₀, destination, phase⟩, output, full, finishing⟩ := c
  obtain rfl : phase = .active := hopen.active
  obtain rfl : finishing = true := hfinishing
  dsimp only at hstep
  simp only [fill, if_true, Session.finish_done hstep hs]
  exact collect_of_append (fun hphase => by cases hphase) hdrained

/-- A step that fails to close the frame. -/
theorem fill_of_error {e : Error} (hopen : c.session.Open start calls)
    (hfinishing : c.finishing = true)
    (hstep : Codec.step c.session.codec .empty c.session.destination.free .finish
      = (.error e, codec)) :
    c.fill turns = (.error (.failed e), ⟨c.reader, c.source,
      ⟨codec, c.session.destination, .active⟩, c.output, c.destinationFull, c.finishing⟩) := by
  obtain ⟨reader, source, ⟨codec₀, destination, phase⟩, output, full, finishing⟩ := c
  obtain rfl : phase = .active := hopen.active
  obtain rfl : finishing = true := hfinishing
  dsimp only at hstep
  simp only [fill, if_true, Session.finish_error hstep]

omit [Reader ρ] in
/-- What a step that closes the frame comes to is kept. -/
theorem Kept.closed {s : Step} (h : Kept start calls served c)
    (hopen : c.session.Open start calls) (hfinishing : c.finishing = true)
    (houtput : c.output.toList = [])
    (hstep : Codec.step c.session.codec .empty c.session.destination.free .finish
      = (.ok s, codec)) :
    Kept start (calls ++ [⟨.empty, c.session.destination.free, .finish, .ok s⟩]) served
      ⟨c.reader, c.source, ⟨codec, c.session.destination,
        if s.completion = .done then .finished else .active⟩, .ofBytes s.produced,
        c.destinationFull, c.finishing⟩ := by
  have hcall := hopen.may_finish (room_of_drained hopen h.drained) (.ok s)
  -- nothing is pending once the frame is to be closed, so the step is told the whole source
  obtain ⟨hnil, -⟩ := h.closing hfinishing
  have htaken : takenBy calls = receivedBy c.reader.calls := by
    rw [h.source_eq, hnil, List.append_nil]
  have hnone : StepCall.taken ⟨.empty, c.session.destination.free, .finish, .ok s⟩ = [] :=
    StepCall.taken_of_size rfl
  refine h.snoc ?_ h.drained (offers_finish htaken) (fun hd => by cases hd)
    (by rw [hnone]; rfl) ?_ h.fits fun hnot => by rw [hnot] at hfinishing; cases hfinishing
  · cases hs : s.completion with
    | done =>
        have hshut := hopen.shut hstep hcall hs
        exact Or.inr ⟨⟨hshut.steps, hshut.protocol, hshut.closed, rfl⟩, hfinishing⟩
    | pending =>
        have hstepped := hopen.stepped hstep hcall fun _ => hs
        exact Or.inl ⟨hstepped.steps, hstepped.protocol, hstepped.unclosed, hopen.fits,
          hopen.capacity, rfl⟩
  · rw [houtput, Slice.toList_ofBytes]
    rfl

omit [Reader ρ] in
theorem Kept.closed_error {e : Error} (h : Kept start calls served c)
    (hopen : c.session.Open start calls) (hfinishing : c.finishing = true)
    (hstep : Codec.step c.session.codec .empty c.session.destination.free .finish
      = (.error e, codec)) :
    Kept start (calls ++ [⟨.empty, c.session.destination.free, .finish, .error e⟩]) served
      ⟨c.reader, c.source, ⟨codec, c.session.destination, .active⟩, c.output, c.destinationFull,
        c.finishing⟩ := by
  have hcall := hopen.may_finish (room_of_drained hopen h.drained) (.error e)
  obtain ⟨hnil, -⟩ := h.closing hfinishing
  have htaken : takenBy calls = receivedBy c.reader.calls := by
    rw [h.source_eq, hnil, List.append_nil]
  exact h.snoc (Or.inl (hopen.failed hstep hcall)) h.drained (offers_finish htaken)
    (fun hd => by cases hd) rfl (List.append_nil _) h.fits
    fun hnot => by rw [hnot] at hfinishing; cases hfinishing

omit [Reader ρ] in
/-- A refill that does not end the source puts what was read behind what is pending. -/
theorem Kept.refilled {source : SourceBuffer} {reader : Observed ρ} {more : List EndCall}
    {result : Except (Halt Error) Refill} (h : Kept start calls served c)
    (hfinishing : c.finishing = false) (hcalls : reader.calls = c.reader.calls ++ more)
    (hmore : SourceBuffer.Refilled c.source source more result)
    (hresult : result ≠ .ok .finished) :
    Kept start calls served { c with source, reader } := by
  obtain ⟨hunfinished, hunended⟩ := h.reading hfinishing
  -- only a refill that finds the end of the source sees an empty read
  have hmoreUnended : Unended more := by
    cases result with
    | error x => exact (hmore.failed x rfl).2
    | ok refill =>
        cases refill with
        | read n => exact (hmore.read n rfl).2
        | finished => exact absurd rfl hresult
  refine ⟨?_, h.drained, ?_, h.unflushed, ?_, h.output_eq, hmore.fits,
    fun _ => ⟨hunfinished, ?_⟩, ?_⟩
  · exact h.session
  · show Each (Offers (receivedBy reader.calls)) calls
    rw [hcalls, receivedBy_append]
    exact offers_mono h.offers hunfinished (List.prefix_append _ _)
  · show receivedBy reader.calls = _
    rw [hcalls, receivedBy_append, h.source_eq, hmore.pending, List.append_assoc]
  · show Unended reader.calls
    rw [hcalls]
    exact hunended.append hmoreUnended
  · intro hend
    rw [show c.finishing = true from hend] at hfinishing
    cases hfinishing

omit [Reader ρ] in
/-- A refill that ends the source leaves nothing but the frame to be closed. -/
theorem Kept.exhausted {source : SourceBuffer} {reader : Observed ρ} {more : List EndCall}
    (h : Kept start calls served c) (hfinishing : c.finishing = false)
    (hempty : c.source.pending.toList = []) (hcalls : reader.calls = c.reader.calls ++ more)
    (hmore : SourceBuffer.Refilled c.source source more (.ok .finished)) :
    Kept start calls served { c with source, reader, finishing := true } := by
  obtain ⟨hunfinished, hunended⟩ := h.reading hfinishing
  obtain ⟨hnil, hexhausted⟩ := hmore.finished rfl
  have hreceived : receivedBy reader.calls = receivedBy c.reader.calls := by
    rw [hcalls, receivedBy_append, hnil, List.append_nil]
  have hpending : source.pending.toList = [] := by rw [hmore.pending, hempty, hnil]; rfl
  refine ⟨?_, h.drained, ?_, h.unflushed, ?_, h.output_eq, hmore.fits, (fun hnot => by cases hnot),
    fun _ => ⟨hpending, ?_⟩⟩
  · rcases h.session with hopen | ⟨hshut, -⟩
    · exact Or.inl hopen
    · exact Or.inr ⟨hshut, rfl⟩
  · show Each (Offers (receivedBy reader.calls)) calls
    rw [hreceived]
    exact h.offers
  · show receivedBy reader.calls = takenBy calls ++ source.pending.toList
    rw [hreceived, h.source_eq, hpending, hempty]
  · show Exhausted reader.calls
    rw [hcalls]
    exact hunended.append_exhausted hexhausted

/-! ### Whatever comes of it -/

omit [Codec κ] [Reader ρ] in
theorem pending_of_needsInput (h : c.needsInput = true) : c.source.pending.toList = [] :=
  c.source.isEmpty_pending_iff.mp (Bool.and_eq_true_iff.mp h).1

/-- **A fill**, whatever comes of it, keeps what a reader keeps. -/
theorem Kept.fill (h : Kept start calls served c) (hopen : c.session.Open start calls)
    (houtput : c.output.toList = []) (turns : Nat) :
    ∃ calls', Kept start calls' served (c.fill turns).2 := by
  -- one case for each way a fill goes: closing, advancing, or a refill and its three results
  cases hfinishing : c.finishing with
  | true =>
      obtain ⟨result, codec, hstep⟩ : ∃ result codec, Codec.step c.session.codec .empty
          c.session.destination.free .finish = (result, codec) := ⟨_, _, rfl⟩
      cases result with
      | error e =>
          rw [fill_of_error hopen hfinishing hstep]
          exact ⟨_, h.closed_error hopen hfinishing hstep⟩
      | ok s =>
          have hclosed := h.closed hopen hfinishing houtput hstep
          cases hs : s.completion with
          | pending =>
              rw [fill_of_pending hopen h.drained hfinishing hstep hs]
              rw [hs, if_neg (fun hnot => by cases hnot)] at hclosed
              exact ⟨_, hclosed⟩
          | done =>
              rw [fill_of_done hopen h.drained hfinishing hstep hs]
              rw [hs, if_pos rfl] at hclosed
              exact ⟨_, hclosed⟩
  | false =>
      cases hneeds : c.needsInput with
      | false =>
          rw [fill_of_not_needsInput hfinishing hneeds]
          exact h.advance hopen hfinishing houtput
      | true =>
          obtain ⟨more, hcalls, hmore⟩ := SourceBuffer.refill_refilled turns c.reader h.fits
          obtain ⟨result, source', reader', hrefill⟩ : ∃ result source' reader',
              c.source.refill turns c.reader = (result, source', reader') := ⟨_, _, _, rfl⟩
          rw [hrefill] at hcalls hmore
          cases result with
          | error x =>
              rw [fill_of_failure hfinishing hneeds hrefill]
              exact ⟨calls, h.refilled hfinishing hcalls hmore fun hnot => by cases hnot⟩
          | ok refill =>
              cases refill with
              | finished =>
                  rw [fill_of_finished hfinishing hneeds hrefill]
                  exact ⟨calls, h.exhausted hfinishing (pending_of_needsInput hneeds) hcalls hmore⟩
              | read n =>
                  have hrefilled := h.refilled hfinishing hcalls hmore fun hnot => by cases hnot
                  rw [fill_of_read hfinishing hneeds hrefill]
                  exact hrefilled.advance hopen hfinishing houtput

omit [Reader ρ] in
/-- A reader that has neither output nor a closed frame may go on. -/
theorem Kept.may_go_on (h : Kept start calls served c)
    (hready : (!c.output.isEmpty || c.session.isFinished) = false) :
    c.output.toList = [] ∧ c.session.Open start calls := by
  obtain ⟨houtput, hunfinished⟩ := Bool.or_eq_false_iff.mp hready
  refine ⟨toList_of_isEmpty (by simpa using houtput), ?_⟩
  rcases h.session with hopen | ⟨hshut, -⟩
  · exact hopen
  · rw [Session.isFinished, hshut.finished] at hunfinished
    cases hunfinished

/-- **Preparing output** keeps what a reader keeps, whatever comes of it. -/
theorem Kept.prepare : ∀ (turns : Nat) {calls : List StepCall}
    {c : CompressingReader κ (Observed ρ)}, Kept start calls served c →
    ∃ calls', Kept start calls' served (c.prepare turns).2
      ∧ ((c.prepare turns).1 = .ok () → (c.prepare turns).2.output.toList ≠ []
        ∨ (c.prepare turns).2.session.phase = .finished) := by
  intro turns
  induction turns with
  | zero =>
      intro calls c h
      exact ⟨calls, h, fun hok => by cases hok⟩
  | succ turns ih =>
      intro calls c h
      cases hready : !c.output.isEmpty || c.session.isFinished with
      | true =>
          rw [prepare_of_ready hready]
          refine ⟨calls, h, fun _ => ?_⟩
          rcases Bool.or_eq_true_iff.mp hready with houtput | hfinished
          · exact Or.inl (toList_ne_nil_of_isEmpty (by simpa using houtput))
          · exact Or.inr (beq_iff_eq.mp hfinished)
      | false =>
          -- a fill may leave no output: the codec has only taken input, and the next turn goes on
          obtain ⟨hnil, hopen⟩ := h.may_go_on hready
          obtain ⟨calls', h'⟩ := h.fill hopen hnil turns
          obtain ⟨result, c', hfill⟩ : ∃ result c', c.fill turns = (result, c') := ⟨_, _, rfl⟩
          rw [hfill] at h'
          cases result with
          | error x =>
              rw [prepare_of_failure hready hfill]
              exact ⟨calls', h', fun hok => by cases hok⟩
          | ok =>
              rw [prepare_of_fill hready hfill]
              exact ih h'

/-- What a read gave. -/
def piece {ε : Type} : Except ε ByteArray → List UInt8
  | .ok b => b.data.toList
  | .error _ => []

omit [Reader ρ] in
/-- Giving out the beginning of the output. -/
theorem Kept.serve (h : Kept start calls served c) (room : Nat) :
    Kept start calls (served ++ (c.output.take room).toList)
      { c with output := c.output.drop room } where
  session := h.session
  drained := h.drained
  offers := h.offers
  unflushed := h.unflushed
  source_eq := h.source_eq
  output_eq := by
    show _ = _ ++ (c.output.drop room).toList
    rw [h.output_eq, List.append_assoc, Slice.toList_take, Slice.toList_drop,
      List.take_append_drop]
  fits := h.fits
  reading := h.reading
  closing := h.closing

/-- **A read**, whatever comes of it, keeps what a reader keeps. -/
theorem Kept.read (h : Kept start calls served c) (turns room : Nat) :
    ∃ calls', Kept start calls' (served ++ piece (c.read turns room).1) (c.read turns room).2 := by
  unfold CompressingReader.read
  split
  · exact ⟨calls, by rw [show piece _ = [] from rfl, List.append_nil]; exact h⟩
  · obtain ⟨calls', h', -⟩ := h.prepare turns
    split
    · next heq =>
      rw [heq] at h'
      exact ⟨calls', by rw [show piece _ = [] from rfl, List.append_nil]; exact h'⟩
    · next heq =>
      rw [heq] at h'
      exact ⟨calls', h'.serve room⟩

/-- **A read that gives nothing** although there is room finds the frame closed, with all of the
source in it. -/
theorem Kept.read_nothing (h : Kept start calls served c) {turns room : Nat} {b : ByteArray}
    {c' : CompressingReader κ (Observed ρ)} (hread : c.read turns room = (.ok b, c'))
    (hroom : room ≠ 0) (hsize : b.size = 0) :
    ∃ calls', Kept start calls' served c' ∧ c'.session.Shut start calls'
      ∧ c'.output.toList = [] ∧ takenBy calls' = receivedBy c'.reader.calls
      ∧ Exhausted c'.reader.calls := by
  obtain ⟨calls', h', hready⟩ := h.prepare turns
  unfold CompressingReader.read at hread
  rw [if_neg hroom] at hread
  split at hread
  · cases hread
  next c₁ heq =>
  rw [heq] at h' hready
  cases hread
  have hnil : c₁.output.toList = [] := toList_of_take hroom hsize
  have hfinished : c₁.session.phase = .finished := (hready rfl).resolve_left (not_not_intro hnil)
  obtain ⟨hshut, hfinishing⟩ : c₁.session.Shut start calls' ∧ c₁.finishing = true := by
    rcases h'.session with hopen | hshut
    · rw [hopen.active] at hfinished
      cases hfinished
    · exact hshut
  obtain ⟨hpending, hexhausted⟩ := h'.closing hfinishing
  have hserve := h'.serve room
  rw [Slice.toList_take, hnil, List.take_nil, List.append_nil] at hserve
  refine ⟨calls', hserve, hshut, ?_, ?_, hexhausted⟩
  · rw [Slice.toList_drop, hnil, List.drop_nil]
  · have hsource := h'.source_eq
    rw [hpending, List.append_nil] at hsource
    exact hsource.symm

/-! ## Histories -/

/-- Some reads, whatever came of them, lead from `first` to a state and gave `served`. -/
inductive Asked (first : CompressingReader κ ρ) :
    List UInt8 → CompressingReader κ ρ → Prop where
  | nil : Asked first [] first
  | read {served : List UInt8} {c : CompressingReader κ ρ} (turns room : Nat) :
      Asked first served c →
      Asked first (served ++ piece (c.read turns room).1) (c.read turns room).2

/-- However it is read, a reader keeps what it keeps. -/
theorem Asked.kept {first c : CompressingReader κ (Observed ρ)} (h : Asked first served c)
    (hfirst : Kept start [] [] first) : ∃ calls, Kept start calls served c := by
  induction h with
  | nil => exact ⟨[], hfirst⟩
  | read turns room _ ih =>
      obtain ⟨calls, h⟩ := ih
      exact h.read turns room

end Fill

/-- A new reader with room in its destination has served nothing. -/
theorem kept_new (codec : κ) (reader : ρ) (sourceLength : Nat) {destinationLength : Nat}
    (hroom : 0 < destinationLength) :
    Kept codec [] [] (⟨.new reader, ⟨.empty, 0, sourceLength⟩,
      ⟨codec, ⟨.empty, destinationLength⟩, .active⟩, .empty, false, false⟩ :
      CompressingReader κ (Observed ρ)) where
  session := Or.inl (Session.open_new codec hroom)
  drained := rfl
  offers := each_nil
  unflushed := fun _ hc => absurd hc List.not_mem_nil
  source_eq := rfl
  output_eq := rfl
  fits := ⟨Nat.le_refl 0, Nat.zero_le _⟩
  reading _ := ⟨unfinished_nil, unended_nil⟩
  closing hfinishing := by cases hfinishing

end CompressingReader

end Zstandard
