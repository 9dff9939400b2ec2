import Zstandard.Proofs.Collecting
import Zstandard.Proofs.Unflushed
import Zstandard.Proofs.Unstuck

/-!
# All ways to compress agree

A codec that fixes a frame for a source puts the source into that frame, byte for byte, whichever
way it goes: in one shot, through a stream, a writer or a reader, or pushed into a session by hand.
Neither the lengths of the buffers nor the parts in which the source comes and the frame goes make
a difference. Only a flush would, and none is asked for.
-/

namespace Zstandard

variable {κ : Type} [inner : Codec κ] {start : κ} {x frame : List UInt8} {bound : Nat}
  {memory : Memory} {make : CompressorOptions → Except Error κ} {o : CompressorOptions}

/-! ## Drivers of a codec that fixes a frame -/

section Options

/-- A pledge is not made twice. -/
theorem CompressorOptions.orPledge_of_isSome (h : o.pledgedSize.isSome = true) (size : Nat) :
    o.orPledge size = o := by
  obtain ⟨pledge, hpledge⟩ := Option.isSome_iff_exists.mp h
  unfold orPledge
  rw [hpledge, Option.getD_some, ← hpledge]

theorem Passage.compressorOptions_of_isSome (h : o.pledgedSize.isSome = true) (p : Passage) :
    p.compressorOptions o = o := by
  cases p with
  | oneShot data => exact o.orPledge_of_isSome h data.size
  | stream reader writer => rfl
  | writer writer requests => rfl
  | reader reader rooms => rfl

end Options

/-- **A passage without flushes** comes to the frame that is fixed. -/
theorem Passage.compress_fixed (h : Fixes start x frame bound) (ho : o.validate = .ok ())
    (hpledged : o.pledgedSize.isSome = true) (hmake : make o = .ok start)
    (p : Passage) (hp : p.Brings x) (hunflushed : p.Unflushed)
    (hmemory : p.Granted memory o.sourceLength o.destinationLength bound) (log : Log) :
    Settles (p.compress memory make o log) (.ok frame) := by
  -- without flushes the passage runs as over the quiet codec, which encodes its source
  obtain ⟨calls, codec, he, hclosed, hsettles⟩ :=
    @Passage.compress_settles κ inner.quiet _ _ _ _ _ _ h.encodes ho p
      ((p.compressorOptions_of_isSome hpledged).symm ▸ hmake) hp hmemory log
  rw [p.compress_quiet hunflushed, h.frame_eq he hclosed] at hsettles
  exact hsettles

namespace Collector

theorem pushEach_quiet (turns : Nat) : ∀ parts : List Slice,
    @pushEach κ inner.quiet turns parts = pushEach turns parts := by
  intro parts
  induction parts with
  | nil => rfl
  | cons part rest ih =>
      simp only [pushEach, pushAll_quiet, ih]
      rfl

theorem compress_quiet : @compress κ inner.quiet = compress := by
  funext memory make o parts log turns
  simp only [compress, pushEach_quiet, finish_quiet]

/-- **Compression by hand** comes to the frame that is fixed. -/
theorem compress_fixed (h : Fixes start x frame bound) (ho : o.validate = .ok ())
    (hmake : make o = .ok start) (hdestination : memory.grants o.destinationLength = true)
    {parts : List Slice} (hparts : parts.flatMap Slice.toList = x) (log : Log) :
    Settles (compress memory make o parts log) (.ok frame) := by
  obtain ⟨calls, codec, he, hclosed, hsettles⟩ :=
    @compress_settles κ inner.quiet _ _ _ h.encodes _ _ _ _ ho hdestination hmake hparts log
  rw [compress_quiet, h.frame_eq he hclosed] at hsettles
  exact hsettles

end Collector

/-- **All ways to compress agree.** Let a codec fix a frame for a source. With any valid options
that pledge a size and make that codec, whatever their buffers are, every passage that brings the
source, asks for no flush and is granted what it asks memory for comes to that frame, and so does a
session into which any parts of the source are pushed by hand. -/
theorem compressors_agree {κ : Type} [Codec κ] (x frame : List UInt8) (bound : Nat) (start : κ)
    (hfixes : Fixes start x frame bound) (make : CompressorOptions → Except Error κ)
    (o : CompressorOptions) (ho : o.validate = .ok ()) (hpledged : o.pledgedSize.isSome = true)
    (hmake : make o = .ok start) (memory : Memory) (log : Log) :
    (∀ p : Passage, p.Brings x → p.Unflushed →
      p.Granted memory o.sourceLength o.destinationLength bound →
      Settles (p.compress memory make o log) (.ok frame))
    ∧ ∀ parts : List Slice, parts.flatMap Slice.toList = x →
      memory.grants o.destinationLength = true →
      Settles (Collector.compress memory make o parts log) (.ok frame) :=
  ⟨fun p hp hunflushed hmemory =>
      p.compress_fixed hfixes ho hpledged hmake hp hunflushed hmemory log,
    fun _ hparts hdestination =>
      Collector.compress_fixed hfixes ho hmake hdestination hparts log⟩

/-! ### A hoard -/

namespace Hoard

variable {calls : List StepCall} {hoard : Hoard}

/-- What a hoard has taken it has put out or still holds, and it never fails. -/
theorem holds (h : Steps ⟨[]⟩ calls hoard) :
    takenBy calls = givenBy calls ++ hoard.held ∧ ∀ c ∈ calls, c.succeeded = true := by
  induction h with
  | nil => exact ⟨rfl, fun _ hc => absurd hc List.not_mem_nil⟩
  | @snoc calls hoard hoard' input room directive result _ hstep ih =>
      obtain ⟨hheld, hsucceeded⟩ := ih
      cases directive with
      | feed =>
          cases hstep
          refine ⟨?_, succeeded_snoc hsucceeded⟩
          rw [takenBy_snoc_ok, givenBy_snoc_ok, hheld, ← Slice.length_toList, List.take_length,
            ← List.append_assoc]
          exact congrArg (· ++ hoard.held ++ input.toList) (List.append_nil _).symm
      | flush | finish =>
          cases hstep
          refine ⟨?_, succeeded_snoc hsucceeded⟩
          rw [takenBy_snoc_ok, givenBy_snoc_ok, hheld, List.take_zero, List.append_nil,
            List.append_assoc]
          exact congrArg (givenBy calls ++ ·) (List.take_append_drop room hoard.held).symm

/-- A hoard that has closed the frame holds nothing. -/
theorem held_eq_nil (h : Steps ⟨[]⟩ calls hoard) (hclosed : Closed calls) : hoard.held = [] := by
  obtain ⟨before, last, hcalls, hfinish, hdone⟩ := hclosed
  cases h with
  | nil => cases List.append_ne_nil_of_right_ne_nil before (List.cons_ne_nil last []) hcalls.symm
  | @snoc calls hoard _ input room directive result _ hstep =>
      obtain ⟨-, hlast⟩ := List.append_inj' hcalls rfl
      obtain rfl := List.singleton_inj.mp hlast
      cases hfinish
      cases hstep
      refine List.drop_eq_nil_of_le ?_
      simpa [StepCall.isDone] using hdone

/-- A hoard fixes its source as the frame. -/
theorem fixes (x : List UInt8) : Fixes (⟨[]⟩ : Hoard) x x x.length where
  succeeds he _ := (holds he.steps).2
  bounded he _ := by
    have hle := he.takenBy_prefix.length_le
    rw [(holds he.steps).1, List.length_append] at hle
    omega
  fixed he _ hclosed := by
    have htaken := he.takenBy_eq hclosed
    rw [(holds he.steps).1, held_eq_nil he.steps hclosed, List.append_nil] at htaken
    exact htaken
  progress he _ c hc hfeed hinput hleaves := by
    obtain ⟨before, hroom, -⟩ := he.protocol.forall_mem hc
    exact (goes_on he.steps c hc).1 hfeed ((holds he.steps).2 c hc) hinput
      (Nat.pos_iff_ne_zero.mp hroom) hleaves
  fills he _ c hc hfinish hpending :=
    (goes_on he.steps c hc).2 (fun hd => by rw [hfinish] at hd; cases hd)
      ((holds he.steps).2 c hc) hpending

/-- Ways for a pair to go without a flush. -/
def ways : List Passage :=
  [.oneShot Echo.pair, .stream (Slice.ofBytes Echo.pair) ByteArray.empty,
    .writer ByteArray.empty [.write (.ofBytes ⟨#[1]⟩), .write (.ofBytes ⟨#[2]⟩)],
    .reader (Slice.ofBytes Echo.pair) fun _ => 1]

theorem ways_bring : ∀ p ∈ ways, p.Brings [1, 2] ∧ p.Unflushed := by
  have hdelivers : Delivers (Slice.ofBytes Echo.pair) [1, 2] := by
    have h := delivers_slice (.ofBytes Echo.pair)
    rwa [Slice.toList_ofBytes] at h
  intro p hp
  simp only [ways, List.mem_cons, List.not_mem_nil, or_false] at hp
  rcases hp with rfl | rfl | rfl | rfl
  · exact ⟨rfl, trivial⟩
  · exact ⟨⟨hdelivers, accepts_bytes _⟩, trivial⟩
  · exact ⟨⟨by simp [Request.bytes], accepts_bytes _⟩, by simp [Passage.Unflushed, Request.isWrite]⟩
  · exact ⟨⟨hdelivers, fun _ => Nat.one_ne_zero⟩, trivial⟩

end Hoard

/-- A pair goes all ways into the same frame, through buffers of one byte and of two. -/
theorem compressors_agree_on_pair :
    let options : UInt64 → UInt64 → CompressorOptions := fun n m =>
      { pledgedSize := some 2, sourceBufferLength := n, destinationBufferLength := m }
    Fixes (⟨[]⟩ : Hoard) [1, 2] [1, 2] 2
      ∧ (∀ p ∈ Hoard.ways, Settles (p.compress .machine Hoard.make (options 1 2) #[]) (.ok [1, 2]))
      ∧ Settles (Collector.compress .machine Hoard.make (options 2 1)
          [.ofBytes ⟨#[1]⟩, .empty, .ofBytes ⟨#[2]⟩] #[]) (.ok [1, 2]) := by
  intro options
  have hfixes := Hoard.fixes [1, 2]
  obtain ⟨hpassages, -⟩ := compressors_agree [1, 2] [1, 2] 2 ⟨[]⟩ hfixes Hoard.make (options 1 2)
    rfl rfl rfl .machine #[]
  obtain ⟨-, hparts⟩ := compressors_agree [1, 2] [1, 2] 2 ⟨[]⟩ hfixes Hoard.make (options 2 1)
    rfl rfl rfl .machine #[]
  refine ⟨hfixes, fun p hp => ?_, hparts _ rfl (by decide)⟩
  obtain ⟨hbrings, hunflushed⟩ := Hoard.ways_bring p hp
  exact hpassages p hbrings hunflushed (p.granted_machine (by decide) (by decide))

end Zstandard
