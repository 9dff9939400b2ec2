import Zstandard.Proofs.RoundTrip

/-!
# Frames one behind another

A codec that reads some frames one at a time reads them one behind another: what comes back is what
the frames hold, put together, whichever way the bytes go and wherever the frames meet. The calls
that feed the frames fall into those up to the end of the latest complete frame and those in the
frame that follows (`Amid`), and each call either stays in that frame or ends it (`Amid.fed`).
-/

namespace Zstandard

/-- A frame: bytes, of which there are some, and what they hold. -/
structure WholeFrame where
  bytes : List UInt8
  content : List UInt8
  bytes_ne_nil : bytes ≠ []

/-- Frames one behind another. -/
def bytesOf (frames : List WholeFrame) : List UInt8 := frames.flatMap WholeFrame.bytes

/-- What the frames hold, one behind another. -/
def contentOf (frames : List WholeFrame) : List UInt8 := frames.flatMap WholeFrame.content

@[simp] theorem bytesOf_nil : bytesOf [] = [] := rfl

@[simp] theorem contentOf_nil : contentOf [] = [] := rfl

@[simp] theorem bytesOf_cons (f : WholeFrame) (frames : List WholeFrame) :
    bytesOf (f :: frames) = f.bytes ++ bytesOf frames := rfl

@[simp] theorem contentOf_cons (f : WholeFrame) (frames : List WholeFrame) :
    contentOf (f :: frames) = f.content ++ contentOf frames := rfl

@[simp] theorem bytesOf_append (a b : List WholeFrame) :
    bytesOf (a ++ b) = bytesOf a ++ bytesOf b :=
  List.flatMap_append

@[simp] theorem contentOf_append (a b : List WholeFrame) :
    contentOf (a ++ b) = contentOf a ++ contentOf b :=
  List.flatMap_append

/-- What a call does that is made in a frame, behind the calls `before`, and leaves the codec in the
state `after`. -/
structure Within {κ : Type} (fresh : κ → Prop) (f : WholeFrame) (before : List StepCall)
    (call : StepCall) (after : κ) : Prop where
  /-- It does not fail. -/
  succeeded : call.succeeded = true
  /-- It takes nothing from behind the frame. -/
  taken_prefix : takenBy (before ++ [call]) <+: f.bytes
  /-- It puts out what the frame holds. -/
  given_prefix : givenBy (before ++ [call]) <+: f.content
  /-- It reports the end of the frame as soon as all has been taken and put out. -/
  isDone_iff : call.isDone = true ↔
    takenBy (before ++ [call]) = f.bytes ∧ givenBy (before ++ [call]) = f.content
  /-- At the end of the frame the codec is as it was at the beginning. -/
  restarts : call.isDone = true → fresh after
  /-- If all has been taken and there is room left, all has been put out. -/
  emptied : takenBy (before ++ [call]) = f.bytes → call.LeavesRoom →
    givenBy (before ++ [call]) = f.content
  /-- If it has input and leaves room, it uses something. -/
  progress : call.input.size ≠ 0 → call.LeavesRoom → call.taken ≠ []

/-- A call that takes the last of a frame without ending it has no room left. -/
theorem Within.not_leavesRoom {κ : Type} {fresh : κ → Prop} {f : WholeFrame}
    {next : List WholeFrame} {before : List StepCall} {call : StepCall} {after : κ}
    (h : Within fresh f before call after)
    (hdone : call.isDone = false) (htaken : takenBy (before ++ [call]) = bytesOf (f :: next)) :
    ¬ call.LeavesRoom := by
  intro hroom
  have hall : takenBy (before ++ [call]) = f.bytes := by
    refine h.taken_prefix.eq_of_length_le ?_
    rw [htaken, bytesOf_cons, List.length_append]
    exact Nat.le_add_right _ _
  rw [h.isDone_iff.mpr ⟨hall, h.emptied hall hroom⟩] at hdone
  cases hdone

/-- From a fresh state, the codec reads each of the frames, whatever comes behind it. -/
structure ReadsFrames {κ : Type} [Codec κ] (fresh : κ → Prop) (frames : List WholeFrame) :
    Prop where
  /-- Each call is within the frame, up to the one that reports its end. -/
  within : ∀ f ∈ frames, ∀ {start codec after : κ} {further : List UInt8} {before : List StepCall}
    {input : Slice} {room : Nat} {result : Except Error Step}, fresh start →
    Steps start before codec → (∀ c ∈ before, c.isDone = false) →
    Each (Feeds (f.bytes ++ further)) (before ++ [⟨input, room, .feed, result⟩]) →
    Codec.step codec input room .feed = (result, after) →
    Within fresh f before ⟨input, room, .feed, result⟩ after
  /-- Without input, a fresh codec does nothing. -/
  idle : ∀ {codec : κ} {input : Slice} {room : Nat}, fresh codec → input.size = 0 → 0 < room →
    ∃ after, Codec.step codec input room .feed = (.ok ⟨0, ByteArray.empty, .pending⟩, after)
      ∧ fresh after

/-- The codec has been fed the frames in `past` by the calls `before`, and by the calls `during` a
part of the frame that comes next. -/
structure Amid {κ : Type} [Codec κ] (fresh : κ → Prop) (past next : List WholeFrame)
    (before during : List StepCall) (codec : κ) : Prop where
  /-- All that is past has been taken. -/
  taken : takenBy before = bytesOf past
  /-- All that it holds has been put out. -/
  given : givenBy before = contentOf past
  /-- Its end has been reported. -/
  boundary : AtBoundary before
  /-- The codec was fresh then. -/
  steps : ∃ start, fresh start ∧ Steps start during codec
  /-- It is fed what comes next. -/
  feeds : Each (Feeds (bytesOf next)) during
  /-- Not all of the next frame has been taken and put out. -/
  unfinished : ∀ c ∈ during, c.isDone = false
  /-- What has been put out is what the next frame holds. -/
  given_prefix : givenBy during <+: contentOf next
  /-- If nothing comes next, nothing happens, and the codec is still fresh. -/
  ended : next = [] → during = [] ∧ fresh codec
  /-- There was no room for what is still to come of a frame that has been taken. -/
  crowded : takenBy during = bytesOf next → ∀ last ∈ during.getLast?, ¬ last.LeavesRoom

section ReadsFrames

variable {κ : Type} [Codec κ] {fresh : κ → Prop} {frames : List WholeFrame}

/-- Between two frames the codec is fresh. -/
theorem amid_between {past : List WholeFrame} {calls : List StepCall} {codec : κ}
    (htaken : takenBy calls = bytesOf past) (hgiven : givenBy calls = contentOf past)
    (hboundary : AtBoundary calls) (hfresh : fresh codec) (next : List WholeFrame) :
    Amid fresh past next calls [] codec where
  taken := htaken
  given := hgiven
  boundary := hboundary
  steps := ⟨codec, hfresh, .nil⟩
  feeds := each_nil
  unfinished := by simp
  given_prefix := List.nil_prefix
  ended _ := ⟨rfl, hfresh⟩
  crowded _ := by simp

section Fed

variable {past next : List WholeFrame} {before during : List StepCall} {codec after : κ}
  {f : WholeFrame} {input : Slice} {room : Nat} {result : Except Error Step}

/-- If no frame comes next, a call does nothing. -/
theorem Amid.idles (h : ReadsFrames fresh frames) (ha : Amid fresh past [] before [] codec)
    (hsize : input.size = 0) (hroom : 0 < room)
    (hstep : Codec.step codec input room .feed = (result, after)) :
    result = .ok ⟨0, .empty, .pending⟩
      ∧ Amid fresh past [] (before ++ [⟨input, room, .feed, result⟩]) [] after := by
  obtain ⟨after', hidle, hafter⟩ := h.idle (ha.ended rfl).2 hsize hroom
  rw [hidle] at hstep
  cases hstep
  refine ⟨rfl, amid_between ((takenBy_snoc_of_size hsize).trans ha.taken) ?_ ?_ hafter []⟩
  · exact (givenBy_snoc_ok.trans (List.append_nil _)).trans ha.given
  · exact atBoundary_snoc.mpr (Or.inr ⟨StepCall.taken_of_size hsize, ha.boundary⟩)

/-- A call that ends its frame leaves the codec between two frames. -/
theorem Amid.ends {call : StepCall} (ha : Amid fresh past (f :: next) before during codec)
    (hw : Within fresh f during call after) (hdone : call.isDone = true) :
    Amid fresh (past ++ [f]) next (before ++ during ++ [call]) [] after := by
  obtain ⟨htaken, hgiven⟩ := hw.isDone_iff.mp hdone
  refine amid_between ?_ ?_ (atBoundary_snoc.mpr (Or.inl hdone)) (hw.restarts hdone) next
  · rw [List.append_assoc, takenBy_append, ha.taken, htaken, bytesOf_append, bytesOf_cons,
      bytesOf_nil, List.append_nil]
  · rw [List.append_assoc, givenBy_append, ha.given, hgiven, contentOf_append, contentOf_cons,
      contentOf_nil, List.append_nil]

/-- A call that does not end its frame stays in it. -/
theorem Amid.goes_on (ha : Amid fresh past (f :: next) before during codec)
    (hfeeds : Each (Feeds (bytesOf (f :: next))) (during ++ [⟨input, room, .feed, result⟩]))
    (hstep : Codec.step codec input room .feed = (result, after))
    (hw : Within fresh f during ⟨input, room, .feed, result⟩ after)
    (hpending : StepCall.isDone ⟨input, room, .feed, result⟩ = false) :
    Amid fresh past (f :: next) before (during ++ [⟨input, room, .feed, result⟩]) after where
  taken := ha.taken
  given := ha.given
  boundary := ha.boundary
  steps :=
    let ⟨start, hstart, hsteps⟩ := ha.steps
    ⟨start, hstart, hsteps.snoc hstep⟩
  feeds := hfeeds
  unfinished :=
    List.forall_mem_append.mpr ⟨ha.unfinished, List.forall_mem_singleton.mpr hpending⟩
  given_prefix := hw.given_prefix.trans (List.prefix_append _ _)
  ended hnil := by cases hnil
  crowded htaken := forall_last_snoc (hw.not_leavesRoom hpending htaken)

/-- **One call more** stays in its frame or ends it. -/
theorem Amid.fed (h : ReadsFrames fresh frames) (hframes : past ++ next = frames)
    (ha : Amid fresh past next before during codec)
    (hfeeds : Feeds (bytesOf frames) (before ++ during) ⟨input, room, .feed, result⟩)
    (hstep : Codec.step codec input room .feed = (result, after)) :
    (StepCall.succeeded ⟨input, room, .feed, result⟩ = true
        ∧ (input.size ≠ 0 → StepCall.LeavesRoom ⟨input, room, .feed, result⟩ →
          StepCall.taken ⟨input, room, .feed, result⟩ ≠ []))
      ∧ ∃ past' next' before' during', past' ++ next' = frames
        ∧ before' ++ during' = before ++ during ++ [⟨input, room, .feed, result⟩]
        ∧ Amid fresh past' next' before' during' after := by
  -- the input is what comes behind the frames that are past
  have hfeeds' : Feeds (bytesOf next) during ⟨input, room, .feed, result⟩ := by
    refine ⟨rfl, hfeeds.2.1, ?_⟩
    have hinput := hfeeds.2.2
    rw [takenBy_append, ha.taken, ← hframes, bytesOf_append, List.append_assoc] at hinput
    exact (List.prefix_append_right_inj _).mp hinput
  cases next with
  | nil =>
      obtain ⟨rfl, -⟩ := ha.ended rfl
      have hsize : input.size = 0 := by
        have hle := hfeeds'.2.2.length_le
        rw [takenBy_nil, List.nil_append, Slice.length_toList] at hle
        exact Nat.le_zero.mp hle
      obtain ⟨rfl, ha'⟩ := ha.idles h hsize hfeeds.2.1 hstep
      exact ⟨⟨rfl, fun hne => absurd hsize hne⟩, past, [], _, [], hframes, by simp, ha'⟩
  | cons f next =>
      obtain ⟨start, hstart, hsteps⟩ := ha.steps
      have hall := each_snoc.mpr ⟨ha.feeds, hfeeds'⟩
      have hw := h.within f (hframes ▸ List.mem_append_right _ List.mem_cons_self) hstart hsteps
        ha.unfinished hall hstep
      refine ⟨⟨hw.succeeded, hw.progress⟩, ?_⟩
      cases hdone : StepCall.isDone ⟨input, room, .feed, result⟩ with
      | true =>
          refine ⟨past ++ [f], next, _, [], ?_, List.append_nil _, ha.ends hw hdone⟩
          rw [← hframes, List.append_assoc, List.singleton_append]
      | false =>
          exact ⟨past, f :: next, before, _, hframes, (List.append_assoc _ _ _).symm,
            ha.goes_on hall hstep hw hdone⟩

end Fed

/-- **All calls that feed the frames** get somewhere amid them, none fails, and each that has input
and leaves room uses something. -/
theorem ReadsFrames.amid (h : ReadsFrames fresh frames) {start codec : κ} {calls : List StepCall}
    (hstart : fresh start) (hsteps : Steps start calls codec)
    (hfeeds : Each (Feeds (bytesOf frames)) calls) :
    (∀ c ∈ calls, c.succeeded = true ∧ (c.input.size ≠ 0 → c.LeavesRoom → c.taken ≠ []))
      ∧ ∃ past next before during, past ++ next = frames ∧ before ++ during = calls
        ∧ Amid fresh past next before during codec := by
  induction hsteps with
  | nil => exact ⟨by simp, [], frames, [], [], rfl, rfl,
    amid_between rfl rfl atBoundary_nil hstart frames⟩
  | @snoc calls codec after input room directive result _ hstep ih =>
      obtain ⟨hcalls, hlast⟩ := each_snoc.mp hfeeds
      obtain ⟨hgood, past, next, before, during, hframes, rfl, ha⟩ := ih hcalls
      obtain rfl : directive = .feed := hlast.1
      obtain ⟨hcall, hnext⟩ := ha.fed h hframes hlast hstep
      exact ⟨List.forall_mem_append.mpr ⟨hgood, List.forall_mem_singleton.mpr hcall⟩, hnext⟩

/-- If all the frames have been taken and there is room left, none comes next. -/
theorem Amid.nil_of_taken {past next : List WholeFrame} {before during : List StepCall} {codec : κ}
    (ha : Amid fresh past next before during codec)
    (htaken : takenBy (before ++ during) = bytesOf (past ++ next))
    (hlast : ∀ last ∈ (before ++ during).getLast?, last.LeavesRoom) : next = [] := by
  rw [takenBy_append, ha.taken, bytesOf_append, List.append_cancel_left_eq] at htaken
  cases next with
  | nil => rfl
  | cons f next =>
      exfalso
      rcases List.eq_nil_or_concat during with rfl | ⟨during', last, rfl⟩
      · -- a frame has bytes
        rw [takenBy_nil, bytesOf_cons] at htaken
        exact f.bytes_ne_nil (List.append_eq_nil_iff.mp htaken.symm).1
      · rw [List.concat_eq_append] at ha hlast htaken
        refine ha.crowded htaken last ?_ (hlast last ?_)
        · rw [List.getLast?_concat]
          rfl
        · rw [← List.append_assoc, List.getLast?_concat]
          rfl

/-- What the frames hold is got back from all of them together. -/
theorem ReadsFrames.restores (h : ReadsFrames fresh frames) {start : κ} (hstart : fresh start) :
    Restores start (bytesOf frames) (contentOf frames) where
  succeeds hsteps hfeeds c hc := ((h.amid hstart hsteps hfeeds).1 c hc).1
  given_prefix hsteps hfeeds := by
    obtain ⟨-, past, next, before, during, hframes, rfl, ha⟩ := h.amid hstart hsteps hfeeds
    rw [givenBy_append, ha.given, ← hframes, contentOf_append]
    exact (List.prefix_append_right_inj _).mpr ha.given_prefix
  progress hsteps hfeeds c hc := ((h.amid hstart hsteps hfeeds).1 c hc).2
  complete hsteps hfeeds htaken hlast := by
    obtain ⟨-, past, next, before, during, hframes, rfl, ha⟩ := h.amid hstart hsteps hfeeds
    rw [← hframes] at htaken
    obtain rfl := ha.nil_of_taken htaken hlast
    obtain ⟨rfl, -⟩ := ha.ended rfl
    rw [List.append_nil] at hframes ⊢
    exact ⟨hframes ▸ ha.given, ha.boundary⟩

end ReadsFrames

/-- **Frames one behind another decode to what they hold, one behind another.** Let a codec read
each of some frames from a fresh state, whatever comes behind the frame. A passage that brings the
frames one behind another and is granted what it asks memory for, with valid options that make such
a codec in a fresh state, comes to what they hold, and no frame is open then. -/
theorem concatenated_frames_decode {κ : Type} [Codec κ] (fresh : κ → Prop)
    (frames : List WholeFrame) (hreads : ReadsFrames fresh frames)
    (make : DecompressorOptions → Except Error κ) (c : κ) (hfresh : fresh c)
    (o : DecompressorOptions) (ho : o.validate = .ok ()) (hmake : make o = .ok c)
    (memory : Memory) (p : Passage) (hp : p.Brings (bytesOf frames))
    (hmemory : p.Granted memory o.sourceLength o.destinationLength (contentOf frames).length)
    (log : Log) :
    Settles (p.decompress memory (framing make) o log) (.ok (contentOf frames))
      ∧ DecodesTo { codec := c } (bytesOf frames) (contentOf frames) false := by
  have hsettles := Passage.decompress_restores (hreads.restores hfresh) ho hmake p hp hmemory log
  obtain ⟨turns, hturns⟩ := hsettles.reached
  exact ⟨hsettles, Passage.decodesTo_of_ok hmake p hp hturns⟩

/-! ### A codec that counts -/

/-- A codec that reads a count and puts out as many zeros. It keeps the count in the input until the
last of them, of which `issued` are out. -/
structure Zeros where
  issued : Nat

namespace Zeros

def zeros (n : Nat) : ByteArray := ⟨Array.replicate n 0⟩

def step (z : Zeros) (input : Slice) (room : Nat) (_ : Directive) : Except Error Step × Zeros :=
  match input.toList with
  | [] => (.ok ⟨0, .empty, .pending⟩, z)
  | count :: _ =>
    if count.toNat - z.issued ≤ room then
      (.ok ⟨1, zeros (count.toNat - z.issued), .done⟩, ⟨0⟩)
    else (.ok ⟨0, zeros room, .pending⟩, ⟨z.issued + room⟩)

theorem size_zeros (n : Nat) : (zeros n).size = n := Array.size_replicate

theorem toList_zeros (n : Nat) : (zeros n).data.toList = List.replicate n 0 :=
  Array.toList_replicate

theorem step_ok {z z' : Zeros} {input : Slice} {room : Nat} {directive : Directive} {s : Step}
    (h : z.step input room directive = (.ok s, z')) :
    s.consumed ≤ input.size ∧ s.produced.size ≤ room := by
  unfold step at h
  split at h
  · cases h
    exact ⟨Nat.zero_le _, Nat.zero_le _⟩
  · next hinput =>
    have hsize : 1 ≤ input.size := by
      rw [← Slice.length_toList, hinput]
      exact Nat.succ_le_succ (Nat.zero_le _)
    split at h
    · next hroom =>
      cases h
      exact ⟨hsize, by rw [size_zeros]; exact hroom⟩
    · cases h
      exact ⟨Nat.zero_le _, Nat.le_of_eq (size_zeros _)⟩

instance : Codec Zeros where
  step := step
  endOfInput _ := .ok ()
  consumed_le h := (step_ok h).1
  produced_le h := (step_ok h).2

/-- The frame of as many zeros as the byte says. -/
def frame (count : UInt8) : WholeFrame where
  bytes := [count]
  content := List.replicate count.toNat 0
  bytes_ne_nil := List.cons_ne_nil _ _

/-- No more has been put out than the count says, which has not been taken. -/
def Counting (count : UInt8) (calls : List StepCall) (z : Zeros) : Prop :=
  takenBy calls = [] ∧ givenBy calls = List.replicate z.issued 0 ∧ z.issued ≤ count.toNat

section Counting

variable {count : UInt8} {further : List UInt8} {calls : List StepCall} {z z' : Zeros}
  {input : Slice} {room : Nat} {result : Except Error Step}

/-- A call that takes nothing goes on counting, if it has no input or fills its room. -/
theorem Counting.goes_on (h : Counting count calls z) {n : Nat} (hn : z.issued + n ≤ count.toNat)
    (hfull : input.size = 0 ∨ n = room) :
    Within (fun z => z.issued = 0) (frame count) calls
        ⟨input, room, .feed, .ok ⟨0, zeros n, .pending⟩⟩ (⟨z.issued + n⟩ : Zeros)
      ∧ Counting count (calls ++ [⟨input, room, .feed, .ok ⟨0, zeros n, .pending⟩⟩])
        ⟨z.issued + n⟩ := by
  obtain ⟨htaken, hgiven, -⟩ := h
  have htaken' : takenBy (calls ++ [⟨input, room, .feed, .ok ⟨0, zeros n, .pending⟩⟩]) = [] := by
    rw [takenBy_snoc_ok, htaken]
    rfl
  have hgiven' : givenBy (calls ++ [⟨input, room, .feed, .ok ⟨0, zeros n, .pending⟩⟩])
      = List.replicate (z.issued + n) 0 := by
    rw [givenBy_snoc_ok, hgiven, toList_zeros, List.replicate_append_replicate]
  have hnone : takenBy (calls ++ [⟨input, room, .feed, .ok ⟨0, zeros n, .pending⟩⟩])
      ≠ (frame count).bytes := by
    rw [htaken']
    exact (List.cons_ne_nil _ _).symm
  refine ⟨⟨rfl, ?_, ?_, ?_, ?_, fun hall => absurd hall hnone, fun hsize hroom => ?_⟩, htaken',
    hgiven', hn⟩
  · rw [htaken']
    exact List.nil_prefix
  · rw [hgiven']
    refine List.prefix_replicate_iff.mpr ⟨?_, by rw [List.length_replicate]⟩
    rwa [List.length_replicate]
  · exact iff_of_false Bool.false_ne_true fun hall => hnone hall.1
  · exact fun hdone => absurd hdone Bool.false_ne_true
  · rcases hfull with hnil | rfl
    · exact absurd hnil hsize
    · have hlt : (zeros n).data.toList.length < n := hroom
      rw [toList_zeros, List.length_replicate] at hlt
      exact absurd hlt (Nat.lt_irrefl _)

/-- A call that puts out the rest of the zeros takes the count, and ends the frame. -/
theorem Counting.ends (h : Counting count calls z) {rest : List UInt8}
    (hinput : input.toList = count :: rest) :
    Within (fun z => z.issued = 0) (frame count) calls
      ⟨input, room, .feed, .ok ⟨1, zeros (count.toNat - z.issued), .done⟩⟩ (⟨0⟩ : Zeros) := by
  obtain ⟨htaken, hgiven, hissued⟩ := h
  have htake : input.toList.take 1 = [count] := by rw [hinput]; rfl
  have htaken' : takenBy (calls ++ [⟨input, room, .feed,
      .ok ⟨1, zeros (count.toNat - z.issued), .done⟩⟩]) = (frame count).bytes := by
    rw [takenBy_snoc_ok, htaken, htake]
    rfl
  have hgiven' : givenBy (calls ++ [⟨input, room, .feed,
      .ok ⟨1, zeros (count.toNat - z.issued), .done⟩⟩]) = (frame count).content := by
    rw [givenBy_snoc_ok, hgiven, toList_zeros, List.replicate_append_replicate,
      Nat.add_sub_cancel' hissued]
    rfl
  refine ⟨rfl, htaken' ▸ List.prefix_refl _, hgiven' ▸ List.prefix_refl _,
    iff_of_true rfl ⟨htaken', hgiven'⟩, fun _ => rfl, fun _ _ => hgiven', fun _ _ hnil => ?_⟩
  have hone : [count] = [] := htake.symm.trans hnil
  cases hone

/-- **A call goes on counting, or ends the frame.** -/
theorem Counting.next (h : Counting count calls z)
    (hinput : takenBy calls ++ input.toList <+: (frame count).bytes ++ further)
    (hstep : Codec.step z input room .feed = (result, z')) :
    Within (fun z => z.issued = 0) (frame count) calls ⟨input, room, .feed, result⟩ z'
      ∧ (StepCall.isDone ⟨input, room, .feed, result⟩ = false →
        Counting count (calls ++ [⟨input, room, .feed, result⟩]) z') := by
  have hstep' : z.step input room .feed = (result, z') := hstep
  unfold step at hstep'
  split at hstep'
  · next hnil =>
    cases hstep'
    have hsize : input.size = 0 := by
      rw [← Slice.length_toList, hnil]
      rfl
    exact (h.goes_on (n := 0) h.2.2 (Or.inl hsize)).imp_right fun hcounting _ => hcounting
  · next first rest hcons =>
    -- the byte that comes first is the count
    obtain rfl : first = count := by
      rw [h.1, hcons] at hinput
      exact (List.cons_prefix_cons.mp hinput).1
    split at hstep'
    · cases hstep'
      exact ⟨h.ends hcons, fun hpending => by cases hpending⟩
    · next hroom =>
      cases hstep'
      exact (h.goes_on (by omega) (Or.inr rfl)).imp_right fun hcounting _ => hcounting

/-- Before the end of its frame, the codec counts. -/
theorem counting {start : Zeros} (hsteps : Steps start calls z) (hstart : start.issued = 0)
    (hcalls : ∀ c ∈ calls, c.isDone = false)
    (hfeeds : Each (Feeds ((frame count).bytes ++ further)) calls) : Counting count calls z := by
  induction hsteps with
  | nil => exact ⟨rfl, by rw [hstart]; rfl, by omega⟩
  | snoc _ hstep ih =>
      obtain ⟨hbefore, rfl, -, hinput⟩ := each_snoc.mp hfeeds
      obtain ⟨hpending, hlast⟩ := List.forall_mem_append.mp hcalls
      exact ((ih hpending hbefore).next hinput hstep).2 (hlast _ (List.mem_singleton_self _))

end Counting

/-- The codec reads frames of zeros. -/
theorem readsFrames (counts : List UInt8) :
    ReadsFrames (fun z : Zeros => z.issued = 0) (counts.map frame) where
  within f hf start codec after further before input room result hstart hsteps hbefore hfeeds
      hstep := by
    obtain ⟨count, -, rfl⟩ := List.mem_map.mp hf
    obtain ⟨hbefore', -, -, hinput⟩ := each_snoc.mp hfeeds
    exact ((counting hsteps hstart hbefore hbefore').next hinput hstep).1
  idle {codec input _} hfresh hsize _ := by
    have hnil : input.toList = [] := by
      rw [← List.length_eq_zero_iff, Slice.length_toList, hsize]
    refine ⟨codec, ?_, hfresh⟩
    show codec.step input _ .feed = _
    simp only [step, hnil]

end Zeros

/-- Two zeros, none, and one more, which come back through rooms of one byte. -/
theorem concatenated_frames_decode_zeros :
    ReadsFrames (fun z : Zeros => z.issued = 0) ([2, 0, 1].map Zeros.frame)
      ∧ ∀ p : Passage, p.Brings [2, 0, 1] →
        Settles (p.decompress .machine (framing fun _ => .ok (⟨0⟩ : Zeros))
          { destinationBufferLength := 1 } #[]) (.ok [0, 0, 0])
        ∧ DecodesTo { codec := (⟨0⟩ : Zeros) } [2, 0, 1] [0, 0, 0] false := by
  have hreads := Zeros.readsFrames [2, 0, 1]
  refine ⟨hreads, fun p hp => ?_⟩
  exact concatenated_frames_decode _ _ hreads (fun _ => .ok ⟨0⟩) ⟨0⟩ rfl
    { destinationBufferLength := 1 } rfl rfl .machine p hp
    (p.granted_machine (by decide) (by decide)) #[]

end Zstandard
