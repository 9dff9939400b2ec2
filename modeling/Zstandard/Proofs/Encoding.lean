import Zstandard.Proofs.Closing
import Zstandard.Proofs.Digesting

/-!
# Codecs that put a source into a frame

A codec encodes a source if calls that keep to the protocol and are offered that source do not fail,
if each of them gets somewhere, and if there is a bound on what all of them together put out. The
bound may depend on how many flushes are asked for, since each of them may cost some bytes; a flush
that is repeated until the codec reports it done is one (`flushesOf`).

Feeding such a codec is the business of codecs that take what they are fed (`Encodes.digests`). What
is new is closing its frame, which comes to an end because each call but the last puts something
out.
-/

namespace Zstandard

/-! ## Flushes -/

/-- The flushes that were asked for. -/
structure Flushes where
  count : Nat
  /-- The last call asked for a flush that is not done. -/
  pending : Bool

/-- How many flushes there are when the next call asks for one. -/
def Flushes.next (f : Flushes) : Nat := if f.pending then f.count else f.count + 1

/-- The flushes that were asked for after one more call. -/
def Flushes.after (f : Flushes) (c : StepCall) : Flushes :=
  match c.directive with
  | .flush => ⟨f.next, !c.isDone⟩
  | _ => ⟨f.count, false⟩

/-- The flushes that some calls ask for. -/
def flushesOf (calls : List StepCall) : Flushes := calls.foldl Flushes.after ⟨0, false⟩

theorem flushesOf_snoc (calls : List StepCall) (c : StepCall) :
    flushesOf (calls ++ [c]) = (flushesOf calls).after c := by
  unfold flushesOf
  rw [List.foldl_append]
  rfl

/-- Only a call that asks for a flush counts. -/
theorem Flushes.count_after {f : Flushes} {c : StepCall} (h : c.directive ≠ .flush) :
    (f.after c).count = f.count := by
  unfold after
  split
  · next hflush => exact absurd hflush h
  · rfl

/-- A flush that is not done is not counted again. -/
theorem Flushes.next_after {f : Flushes} {c : StepCall} (h : c.directive = .flush)
    (hdone : c.isDone = false) : (f.after c).next = f.next := by
  unfold after
  rw [h, hdone]
  rfl

theorem count_of_unflushed {calls : List StepCall} (h : Unflushed calls) :
    (flushesOf calls).count = 0 := by
  -- the fold starts anywhere, so that the induction goes through
  have key : ∀ f : Flushes, (calls.foldl Flushes.after f).count = f.count := by
    induction calls with
    | nil => exact fun f => rfl
    | cons c calls ih =>
        obtain ⟨hc, hrest⟩ := List.forall_mem_cons.mp h
        exact fun f => (ih hrest (f.after c)).trans (Flushes.count_after hc)
  exact key ⟨0, false⟩

/-! ## Encoding a source -/

/-- The codec gets from `start` to a state by calls that put `source` into a frame, as far as they
go. -/
structure Encoding {κ : Type} [Codec κ] (start : κ) (source : List UInt8) (calls : List StepCall)
    (codec : κ) : Prop where
  /-- The calls lead there. -/
  steps : Steps start calls codec
  /-- They keep to the protocol. -/
  protocol : Each Protocol calls
  /-- Each is offered what comes next, and the frame is closed when nothing does. -/
  offers : Each (Offers source) calls

/-- A codec puts `source` into a frame, and at most `bound n` bytes if asked for `n` flushes. -/
structure Encodes {κ : Type} [Codec κ] (start : κ) (source : List UInt8) (bound : Nat → Nat) :
    Prop where
  /-- No call fails. -/
  succeeds : ∀ {calls : List StepCall} {codec : κ}, Encoding start source calls codec →
    ∀ c ∈ calls, c.succeeded = true
  /-- There is an end to what the calls put out. -/
  bounded : ∀ {calls : List StepCall} {codec : κ}, Encoding start source calls codec →
    (givenBy calls).length ≤ bound (flushesOf calls).count
  /-- A call that has input and leaves room uses something. -/
  progress : ∀ {calls : List StepCall} {codec : κ}, Encoding start source calls codec →
    ∀ c ∈ calls, c.directive = .feed → c.input.size ≠ 0 → c.LeavesRoom → c.taken ≠ []
  /-- A flush is done, and a frame is closed, by a call that puts nothing out. -/
  completes : ∀ {calls : List StepCall} {codec : κ}, Encoding start source calls codec →
    ∀ c ∈ calls, c.directive ≠ .feed → c.given = [] → c.isDone = true

section Encodes

variable {κ : Type} [Codec κ] {start codec : κ} {source : List UInt8} {bound : Nat → Nat}
  {calls : List StepCall} {input : Slice} {room : Nat} {directive : Directive}

theorem Encoding.snoc {codec' : κ} {result : Except Error Step}
    (h : Encoding start source calls codec)
    (hstep : Codec.step codec input room directive = (result, codec'))
    (hprotocol : Protocol calls ⟨input, room, directive, result⟩)
    (hoffers : Offers source calls ⟨input, room, directive, result⟩) :
    Encoding start source (calls ++ [⟨input, room, directive, result⟩]) codec' :=
  ⟨h.steps.snoc hstep, each_snoc.mpr ⟨h.protocol, hprotocol⟩, each_snoc.mpr ⟨h.offers, hoffers⟩⟩

/-- Calls that put a source into a frame have used a beginning of it. -/
theorem Encoding.takenBy_prefix (h : Encoding start source calls codec) :
    takenBy calls <+: source := by
  obtain ⟨hsteps, hprotocol, hoffers⟩ := h
  -- only a call that feeds uses anything, and it is offered what comes next
  induction hsteps with
  | nil => exact List.nil_prefix
  | @snoc calls codec codec' input room directive result _ _ ih =>
      obtain ⟨hcalls, -, hlast⟩ := each_snoc.mp hprotocol
      obtain ⟨hoffered, hoffer⟩ := each_snoc.mp hoffers
      cases directive with
      | feed =>
          rw [takenBy_append, takenBy_cons, takenBy_nil, List.append_nil]
          exact ((List.prefix_append_right_inj _).mpr (StepCall.taken_prefix _)).trans
            (hoffer.1 rfl)
      | flush =>
          rw [takenBy_snoc_of_size hlast.1]
          exact ih hcalls hoffered
      | finish =>
          rw [takenBy_snoc_of_size hlast.1]
          exact ih hcalls hoffered

/-- When the frame has been closed, they have used all of it. -/
theorem Encoding.takenBy_eq (h : Encoding start source calls codec) (hclosed : Closed calls) :
    takenBy calls = source := by
  obtain ⟨before, last, rfl, hfinish, -⟩ := hclosed
  obtain ⟨-, -, hlast⟩ := each_snoc.mp h.protocol
  obtain ⟨-, hoffer⟩ := each_snoc.mp h.offers
  rw [hfinish] at hlast
  rw [takenBy_snoc_of_size hlast.1]
  exact hoffer.2 hfinish

/-- Calls that feed a source put it into a frame, as far as they go. -/
theorem Feeding.encoding (h : Feeding start source calls codec) :
    Encoding start source calls codec :=
  ⟨h.steps, (protocol_of_feeds h.feeds).1, offers_of_feeds h.feeds⟩

/-- **The next call** succeeds. -/
theorem Encodes.next (h : Encodes start source bound) (he : Encoding start source calls codec)
    (hprotocol : ∀ result, Protocol calls ⟨input, room, directive, result⟩)
    (hoffers : ∀ result, Offers source calls ⟨input, room, directive, result⟩) :
    ∃ s codec', Codec.step codec input room directive = (.ok s, codec')
      ∧ Encoding start source (calls ++ [⟨input, room, directive, .ok s⟩]) codec' := by
  obtain ⟨result, codec', hstep⟩ : ∃ result codec',
      Codec.step codec input room directive = (result, codec') := ⟨_, _, rfl⟩
  -- whatever the result is, the call is one of those that do not fail
  have he' := he.snoc hstep (hprotocol result) (hoffers result)
  have hlast := h.succeeds he' _ (List.mem_append_right _ (List.mem_singleton_self _))
  cases result with
  | error e => cases hlast
  | ok s => exact ⟨s, codec', hstep, he'⟩

/-- What a call has put out is within the bound. -/
theorem Encodes.given_le {codec' : κ} {s : Step} (h : Encodes start source bound)
    (he : Encoding start source (calls ++ [⟨input, room, directive, .ok s⟩]) codec') :
    (givenBy calls).length + s.produced.size
      ≤ bound ((flushesOf calls).after ⟨input, room, directive, .ok s⟩).count := by
  have hbounded := h.bounded he
  rwa [length_givenBy_snoc_ok, flushesOf_snoc] at hbounded

/-- A call that feeds the codec and leaves room has used something. -/
theorem Encodes.consumed_ne_zero {codec' : κ} {s : Step} (h : Encodes start source bound)
    (he : Encoding start source (calls ++ [⟨input, room, .feed, .ok s⟩]) codec')
    (hinput : input.size ≠ 0) (hroom : s.produced.size < room) : s.consumed ≠ 0 := by
  intro hzero
  refine h.progress he _ (List.mem_append_right _ (List.mem_singleton_self _)) rfl hinput hroom ?_
  show input.toList.take s.consumed = []
  rw [hzero, List.take_zero]

/-- A call that does not complete what was asked for has put something out. -/
theorem Encodes.produced_ne_zero {codec' : κ} {s : Step} (h : Encodes start source bound)
    (he : Encoding start source (calls ++ [⟨input, room, directive, .ok s⟩]) codec')
    (hdirective : directive ≠ .feed) (hs : s.completion = .pending) : s.produced.size ≠ 0 := by
  intro hzero
  have hdone := h.completes he _ (List.mem_append_right _ (List.mem_singleton_self _)) hdirective
    (List.length_eq_zero_iff.mp hzero)
  rw [StepCall.isDone_of_pending hs] at hdone
  cases hdone

/-- **A call to close the frame** succeeds. If it does not close it, it puts something out, and what
the calls may still put out is less. -/
theorem Encodes.finish (h : Encodes start source bound) (he : Encoding start source calls codec)
    (hunclosed : Unclosed calls) (htaken : takenBy calls = source) (hroom : 0 < room) :
    ∃ s codec', Codec.step codec .empty room .finish = (.ok s, codec')
      ∧ Encoding start source (calls ++ [⟨.empty, room, .finish, .ok s⟩]) codec'
      ∧ (flushesOf (calls ++ [⟨.empty, room, .finish, .ok s⟩])).count = (flushesOf calls).count
      ∧ (givenBy calls).length + s.produced.size ≤ bound (flushesOf calls).count
      ∧ (s.completion = .pending → s.produced.size ≠ 0) := by
  have hprotocol : ∀ result, Protocol calls ⟨.empty, room, .finish, result⟩ :=
    fun _ => ⟨hroom, Slice.size_empty, hunclosed⟩
  obtain ⟨s, codec', hstep, he'⟩ := h.next he hprotocol fun _ => offers_finish htaken
  have hcount := Flushes.count_after (f := flushesOf calls)
    (c := ⟨.empty, room, .finish, .ok s⟩) fun hd => by cases hd
  refine ⟨s, codec', hstep, he', ?_, ?_, h.produced_ne_zero he' fun hd => by cases hd⟩
  · rw [flushesOf_snoc, hcount]
  · rw [← hcount]
    exact h.given_le he'

/-- **A call to flush** succeeds. If the flush is not done, the call puts something out, and what
the calls may still put out is less. -/
theorem Encodes.flush (h : Encodes start source bound) (he : Encoding start source calls codec)
    (hunfinished : Unfinished calls) (hroom : 0 < room) :
    ∃ s codec', Codec.step codec .empty room .flush = (.ok s, codec')
      ∧ Encoding start source (calls ++ [⟨.empty, room, .flush, .ok s⟩]) codec'
      ∧ (givenBy calls).length + s.produced.size ≤ bound (flushesOf calls).next
      ∧ (s.completion = .pending → s.produced.size ≠ 0
        ∧ (flushesOf (calls ++ [⟨.empty, room, .flush, .ok s⟩])).next
          = (flushesOf calls).next) := by
  have hprotocol : ∀ result, Protocol calls ⟨.empty, room, .flush, result⟩ :=
    fun _ => ⟨hroom, Slice.size_empty, hunfinished⟩
  obtain ⟨s, codec', hstep, he'⟩ := h.next he hprotocol fun _ => offers_flush
  refine ⟨s, codec', hstep, he', h.given_le he', fun hs => ⟨?_, ?_⟩⟩
  · exact h.produced_ne_zero he' (fun hd => by cases hd) hs
  · rw [flushesOf_snoc]
    exact Flushes.next_after rfl (StepCall.isDone_of_pending hs)

/-- **A call that feeds the codec** succeeds. -/
theorem Encodes.feed (h : Encodes start source bound) (he : Encoding start source calls codec)
    (hunfinished : Unfinished calls) (hroom : 0 < room)
    (hinput : takenBy calls ++ input.toList <+: source) :
    ∃ s codec', Codec.step codec input room .feed = (.ok s, codec')
      ∧ Encoding start source (calls ++ [⟨input, room, .feed, .ok s⟩]) codec'
      ∧ (flushesOf (calls ++ [⟨input, room, .feed, .ok s⟩])).count = (flushesOf calls).count
      ∧ (givenBy calls).length + s.produced.size ≤ bound (flushesOf calls).count
      ∧ (input.size ≠ 0 → s.produced.size < room → s.consumed ≠ 0) := by
  obtain ⟨s, codec', hstep, he'⟩ := h.next he (fun _ => ⟨hroom, hunfinished⟩)
    fun _ => offers_feed hinput
  have hcount := Flushes.count_after (f := flushesOf calls) (c := ⟨input, room, .feed, .ok s⟩)
    fun hd => by cases hd
  refine ⟨s, codec', hstep, he', ?_, ?_, h.consumed_ne_zero he'⟩
  · rw [flushesOf_snoc, hcount]
  · rw [← hcount]
    exact h.given_le he'

/-- A codec that encodes a source takes what it is fed. -/
theorem Encodes.digests (h : Encodes start source bound) : Digests start source (bound 0) where
  succeeds {calls codec input room} hfeeding hroom hinput := by
    obtain ⟨-, hunfinished, -⟩ := protocol_of_feeds hfeeding.feeds
    obtain ⟨s, codec', hstep, -⟩ := h.feed hfeeding.encoding hunfinished hroom hinput
    exact ⟨s, codec', hstep⟩
  progress {calls codec codec' input room s} hfeeding hinput hstep hsize hroom :=
    h.consumed_ne_zero (hfeeding.snoc (Nat.zero_lt_of_lt hroom) hinput hstep).encoding hsize hroom
  bounded hfeeding := by
    obtain ⟨-, -, hunflushed⟩ := protocol_of_feeds hfeeding.feeds
    have hbounded := h.bounded hfeeding.encoding
    rwa [count_of_unflushed hunflushed] at hbounded

end Encodes

/-! ## Pumps -/

namespace Pump

variable {κ ε : Type} [Codec κ]

section Turns

variable {p p₁ : Pump κ ε} {s : Step}

/-- A step that succeeds is a move that succeeds. -/
theorem close_ok {codec : κ}
    (h : Codec.step p.codec .empty p.destination.free .finish = (.ok s, codec)) :
    ∃ p₁, close p = .ok s p₁ ∧ p₁.codec = codec := by
  obtain ⟨codec₀, ends, source, destination, readTotal, writtenTotal, log⟩ := p
  dsimp only at h
  simp only [close, h]
  exact ⟨_, rfl, rfl⟩

theorem finish_done [Writer ε] (h : close p = .ok s p₁) (hs : s.completion = .done) (turns : Nat) :
    finish (turns + 1) p = .ok () p₁ := by
  simp only [finish, bind_of_ok h, hs]
  rfl

theorem finish_pending [Writer ε] (h : close p = .ok s p₁) (hs : s.completion = .pending)
    (turns : Nat) : finish (turns + 1) p = (flush turns >>= fun _ => finish turns) p₁ := by
  simp only [finish, bind_of_ok h, hs]

end Turns

variable {start : κ} {source : List UInt8} {bound : Nat → Nat} {calls : List StepCall}

/-- **Closing the frame** comes to an end. -/
theorem finish_settles [Writer ε] (hcodec : Encodes start source bound) {fine : ε → Prop}
    (hfine : Obliges fine) {p : Pump κ (Observed ε)} (h : Clean start calls p)
    (he : Encoding start source calls p.codec) (hunclosed : Unclosed calls)
    (htaken : takenBy calls = source) (hroom : p.destination.isFull = false)
    (hp : fine p.ends.ends) :
    ∃ calls' p', Settles (fun turns => finish turns p) (.ok () p') ∧ fine p'.ends.ends
      ∧ Clean start calls' p' ∧ Encoding start source calls' p'.codec ∧ Closed calls' := by
  -- on what may still be put out; closing asks for no flush, so the bound stays as it is
  induction hleft : bound (flushesOf calls).count - (givenBy calls).length using Nat.strongRecOn
    generalizing calls p with
  | ind left ih =>
    have hfree := h.destination_fits.free_pos_iff.mpr hroom
    obtain ⟨s, codec, hstep, he₁, hcount, hbounded, hproduced⟩ :=
      hcodec.finish he hunclosed htaken hfree
    obtain ⟨p₁, hclose, rfl⟩ := close_ok hstep
    obtain ⟨hclean, -, hends, -, hdest⟩ := (close_ensures h).of_ok hclose
    cases hs : s.completion with
    | done =>
        refine ⟨_, p₁, Settles.of_succ ?_, hends ▸ hp, hclean, he₁, calls, _, rfl, rfl,
          StepCall.isDone_of_done hs⟩
        simp only [finish_done hclose hs]
        exact Settles.const
    | pending =>
        -- the step has put something out, and the next one has room again
        have hne := hproduced hs
        obtain ⟨p₂, hflush, hp₂⟩ := flush_settles hfine (p := p₁)
          (by rw [hdest, DestinationBuffer.size_append]; omega) (hends ▸ hp)
        obtain ⟨turns, hturns⟩ := hflush.reached
        obtain ⟨hclean₂, -, -, hdest₂, hne₂⟩ := (flush_ensures turns hclean).of_ok hturns
        have hroom₂ : p₂.destination.isFull = false := by
          rw [hdest₂]
          exact hclean.destination_fits.isFull_rewind hne₂
        have hunclosed₁ : Unclosed (calls ++ [⟨.empty, p.destination.free, .finish, .ok s⟩]) :=
          hunclosed.snoc fun _ => StepCall.isDone_of_pending hs
        obtain ⟨calls', p₃, hsettles, hpost⟩ :=
          ih _ (by
            rw [hcount, length_givenBy_snoc_ok]
            omega) hclean₂ ⟨hclean₂.steps, he₁.protocol, he₁.offers⟩ hunclosed₁
            ((takenBy_snoc_of_size Slice.size_empty).trans htaken) hroom₂ hp₂ rfl
        refine ⟨calls', p₃, Settles.of_succ ?_, hpost⟩
        simp only [finish_pending hclose hs]
        exact hflush.bind hsettles

/-- **Compressing** what a reader has comes to an end, with the frame closed and written out. -/
theorem compress_settles [Reader ε] [Writer ε] (hcodec : Encodes start source bound)
    {still : List UInt8 → ε → Prop} (hstill : Supplies still)
    (hfine : ∀ rest, Obliges (still rest)) {p : Pump κ (Observed ε)} (h : Fed start [] p)
    (hunended : Unended p.ends.calls) (hp : still source p.ends.ends)
    (hreceived : receivedBy p.ends.calls = [])
    (hroom : p.source.pending.size < p.source.capacity) :
    ∃ calls p', Settles
        (fun turns => (do readSource turns; finish turns; complete turns : Work κ _ Unit) p)
        (.ok () p')
      ∧ Encoding start source calls p'.codec ∧ Closed calls
      ∧ acceptedBy p'.ends.calls = givenBy calls := by
  obtain ⟨p₁, hread, hp₁, hreceived₁⟩ :=
    readSource_settles hcodec.digests hstill hfine h hunended hp hreceived hroom
  obtain ⟨turns, hturns⟩ := hread.reached
  obtain ⟨-, hnil, calls, hfed, -⟩ := (readSource_ensures turns h hunended).of_ok hturns
  obtain ⟨-, hunfinished, -⟩ := protocol_of_feeds hfed.feeds
  have hfeeding : Feeding start source calls p₁.codec :=
    ⟨hfed.steps, hreceived₁ ▸ hfed.feeds, hfed.succeeded⟩
  have htaken : takenBy calls = source := by
    rw [← hreceived₁, hfed.source, hnil, List.append_nil]
  obtain ⟨calls', p₂, hfinish, hp₂, hclean, he, hclosed⟩ := finish_settles hcodec (hfine [])
    hfed.toClean hfeeding.encoding hunfinished.unclosed htaken hfed.room hp₁
  obtain ⟨p₃, hcomplete, -⟩ := complete_settles (hfine []) hp₂
  obtain ⟨turns', hturns'⟩ := hcomplete.reached
  obtain ⟨hcodec₃, -, hdelivered⟩ := (complete_ensures turns' hclean).of_ok hturns'
  exact ⟨calls', p₃, hread.bind (hfinish.bind hcomplete), hcodec₃ ▸ he, hclosed, hdelivered⟩

end Pump

/-! ## One-shot operations -/

namespace OneShot

variable {κ : Type} [Codec κ] {memory : Memory} {o o₁ o₂ : OneShot κ} {s : Step}

omit [Codec κ] in
/-- A destination into which something was put grows, if there is memory. -/
theorem grow_of_append {size : Nat} (hmemory : memory.Grows o₁.destination.unit size)
    (hsize : o₁.destination.bytes.size ≤ size) (hfits : o.destination.Fits)
    (hdest : o₁.destination = o.destination.append s.produced)
    (hle : s.produced.size ≤ o.destination.free) (hne : s.produced.size ≠ 0) :
    ∃ o₂, grow memory o₁ = .ok () o₂ := by
  obtain ⟨codec, destination, log⟩ := o₁
  obtain rfl : destination = o.destination.append s.produced := hdest
  obtain ⟨destination', hgrow⟩ := hfits.grow_of_append hle hne (hmemory _ hsize)
  simp only [grow, hgrow]
  exact ⟨_, rfl⟩

theorem finish_done (h : step .empty .finish o = .ok s o₁) (hs : s.completion = .done)
    (turns : Nat) : finish memory (turns + 1) o = .ok () o₁ := by
  simp only [finish, bind_of_ok h, hs]
  rfl

theorem finish_pending (h : step .empty .finish o = .ok s o₁) (hs : s.completion = .pending)
    (hgrow : grow memory o₁ = .ok () o₂) (turns : Nat) :
    finish memory (turns + 1) o = finish memory turns o₂ := by
  simp only [finish, bind_of_ok h, hs, bind_of_ok hgrow]

variable {start : κ} {source : List UInt8} {bound : Nat → Nat} {calls : List StepCall}

/-- **Closing the frame** comes to an end. -/
theorem finish_settles (hcodec : Encodes start source bound)
    (hmemory : memory.Grows o.destination.unit (bound (flushesOf calls).count))
    (h : Kept start calls o) (he : Encoding start source calls o.codec)
    (hunclosed : Unclosed calls) (htaken : takenBy calls = source)
    (hroom : o.destination.isFull = false) :
    ∃ calls' o', Settles (fun turns => finish memory turns o) (.ok () o')
      ∧ Kept start calls' o' ∧ Encoding start source calls' o'.codec ∧ Closed calls' := by
  induction hleft : bound (flushesOf calls).count - (givenBy calls).length using Nat.strongRecOn
    generalizing calls o with
  | ind left ih =>
    have hfree := h.fits.free_pos_iff.mpr hroom
    obtain ⟨s, codec, hstep, he₁, hcount, hbounded, hproduced⟩ :=
      hcodec.finish he hunclosed htaken hfree
    obtain ⟨o₁, hmove, rfl⟩ := step_ok hstep
    obtain ⟨hstep₁, hdest⟩ := (step_ensures .empty .finish o).of_ok hmove
    have hkept := h.closed hunclosed hroom hstep₁ hdest
    cases hs : s.completion with
    | done =>
        refine ⟨_, o₁, Settles.of_succ ?_, hkept, he₁, calls, _, rfl, rfl,
          StepCall.isDone_of_done hs⟩
        simp only [finish_done hmove hs]
        exact Settles.const
    | pending =>
        -- the step has put something out, so the destination can be grown
        have hne := hproduced hs
        have hsize : o₁.destination.bytes.size ≤ bound (flushesOf calls).count := by
          have hlength : o₁.destination.bytes.size = _ := congrArg List.length hkept.output
          rw [length_givenBy_snoc_ok] at hlength
          omega
        have hunit : o₁.destination.unit = o.destination.unit := by rw [hdest]; rfl
        obtain ⟨o₂, hgrow⟩ := grow_of_append (hunit ▸ hmemory) hsize h.fits hdest
          (Codec.produced_le hstep) hne
        obtain ⟨hcodec₂, hgrown⟩ := (grow_ensures memory o₁).of_ok hgrow
        obtain ⟨hfits₂, hbytes, hunit₂, hroom₂⟩ := hkept.fits.grow hgrown
        have hunclosed₁ : Unclosed (calls ++ [⟨.empty, o.destination.free, .finish, .ok s⟩]) :=
          hunclosed.snoc fun _ => StepCall.isDone_of_pending hs
        obtain ⟨calls', o₃, hsettles, hpost⟩ :=
          ih _ (by
            rw [hcount, length_givenBy_snoc_ok]
            omega) (by
            rw [hcount, hunit₂, hunit]
            exact hmemory) ⟨hcodec₂ ▸ hkept.steps, hkept.protocol, hkept.succeeded,
              hbytes ▸ hkept.output, hfits₂⟩ (hcodec₂ ▸ he₁) hunclosed₁
            ((takenBy_snoc_of_size Slice.size_empty).trans htaken) hroom₂ rfl
        refine ⟨calls', o₃, Settles.of_succ ?_, hpost⟩
        simp only [finish_pending hmove hs hgrow]
        exact hsettles

/-- **Compressing** an array comes to an end, with the frame closed. -/
theorem compress_settles (hcodec : Encodes start source bound) {remaining : Slice}
    (h : Fed start source calls remaining o)
    (hmemory : memory.Grows o.destination.unit (bound 0)) :
    ∃ calls' o', Settles (fun turns =>
        (do feedAll memory turns remaining; finish memory turns : Work κ Unit) o) (.ok () o')
      ∧ Encoding start source calls' o'.codec ∧ Closed calls'
      ∧ o'.destination.bytes.data.toList = givenBy calls' := by
  obtain ⟨o₁, hfeed, hunit⟩ := feedAll_settles hcodec.digests h hmemory
  obtain ⟨turns, hturns⟩ := hfeed.reached
  obtain ⟨calls₁, rest, hfed, htaken⟩ := (feedAll_ensures turns h).of_ok hturns
  obtain ⟨-, hunfinished, hunflushed⟩ := protocol_of_feeds hfed.feeding.feeds
  have hmemory₁ : memory.Grows o₁.destination.unit (bound (flushesOf calls₁).count) := by
    rw [hunit, count_of_unflushed hunflushed]
    exact hmemory
  obtain ⟨calls', o₂, hfinish, hkept, he, hclosed⟩ := finish_settles hcodec hmemory₁ hfed.kept
    hfed.feeding.encoding hunfinished.unclosed htaken hfed.room
  exact ⟨calls', o₂, hfeed.bind hfinish, he, hclosed, hkept.output⟩

end OneShot

end Zstandard
