import Zstandard.Proofs.Opening
import Zstandard.Proofs.OneShot

/-!
# A growable buffer grows by units

Whatever is put into a growable buffer, and however often it is grown, it holds all that was put, in
order. What was put since it last grew and what is free make up one unit (`Accounted`). So there is
never room for more than a unit, and growing is refused just if nothing was put since then; also of
a buffer that is not full, and of one whose unit is nothing. The headline is
`growable_buffers_grow_by_units`. It covers the buffers of one-shot operations, which put into them
what their codec gives, and do nothing else to them but grow them (`Collects`).
-/

namespace Zstandard

/-- All lengths that are granted are below `limit`. -/
def Memory.Within (limit : Nat) (memory : Memory) : Prop :=
  ∀ length, memory.grants length = true → length < limit

namespace GrowableBuffer

/-- Puts into what is free and calls to grow, one after another, have led from `first` to a buffer.
`put` is all that was put, `fresh` what of it was put since the buffer was made or last grew, and
`asked` is the memory that each growth was asked of, granted or not. -/
inductive Extended (first : GrowableBuffer) :
    (put fresh : List UInt8) → (asked : List Memory) → GrowableBuffer → Prop where
  | new : Extended first [] [] [] first
  | append {put fresh : List UInt8} {asked : List Memory} {b : GrowableBuffer}
      {produced : ByteArray} :
      Extended first put fresh asked b → produced.size ≤ b.free →
      Extended first (put ++ produced.data.toList) (fresh ++ produced.data.toList) asked
        (b.append produced)
  | grow {put fresh : List UInt8} {asked : List Memory} {b b' : GrowableBuffer} {memory : Memory} :
      Extended first put fresh asked b → b.grow memory = .ok b' →
      Extended first put [] (asked ++ [memory]) b'
  | refuse {put fresh : List UInt8} {asked : List Memory} {b : GrowableBuffer} {memory : Memory}
      {e : Error} :
      Extended first put fresh asked b → b.grow memory = .error e →
      Extended first put fresh (asked ++ [memory]) b

end GrowableBuffer

open GrowableBuffer (Extended)

/-- The destination of `o` was led there from `first` by puts and growths: what was put is what the
codec has given, and the growths were asked of `memory`. -/
def OneShot.Collects {κ : Type} [Codec κ] (first : GrowableBuffer) (memory : Memory) (start : κ)
    (o : OneShot κ) : Prop :=
  ∃ calls fresh asked, Steps start calls o.codec
    ∧ Extended first (givenBy calls) fresh asked o.destination ∧ ∀ m ∈ asked, m = memory

namespace GrowableBuffer

/-- Whatever is put into a buffer that was made of one unit, and however it is grown, it keeps every
byte and grows by one unit at a time. -/
structure GrowsByUnits (first : GrowableBuffer) (memory : Memory) (unit : Nat) : Prop where
  /-- The output is within the length, and there is room for no more than a unit. -/
  fits : ∀ {put fresh asked b}, Extended first put fresh asked b →
    b.bytes.size ≤ b.length ∧ b.length ≤ b.bytes.size + unit
  /-- If no memory grants a length of `2 ^ 63` or more, the length to grow to is below `2 ^ 64`. -/
  addressable : ∀ {put fresh asked b}, Extended first put fresh asked b →
    (∀ m ∈ memory :: asked, m.Within (2 ^ 63)) → b.bytes.size + unit < 2 ^ 64
  /-- The output is what was put. -/
  bytes : ∀ {put fresh asked b}, Extended first put fresh asked b → b.bytes.data.toList = put
  /-- Unless there is no memory, growing succeeds just if something was put since the buffer was
  made or last grew. -/
  grows : ∀ {put fresh asked b} (m : Memory), Extended first put fresh asked b →
    b.grow m ≠ .error .allocateFailed → ((∃ b', b.grow m = .ok b') ↔ fresh ≠ [])
  /-- It is refused just if nothing was put since then. -/
  refused : ∀ {put fresh asked b} (m : Memory), Extended first put fresh asked b →
    (b.grow m = .error .notEnoughDestinationBuffer ↔ fresh = [])
  /-- There is no memory just if something was, and the length to grow to is not granted. -/
  unallocated : ∀ {put fresh asked b} (m : Memory), Extended first put fresh asked b →
    (b.grow m = .error .allocateFailed ↔ fresh ≠ [] ∧ m.grants (b.bytes.size + unit) = false)
  /-- A buffer that has grown holds what it held, is longer by what was put since it last grew, and
  has one unit free. -/
  room : ∀ {put fresh asked b b'} {m : Memory}, Extended first put fresh asked b →
    b.grow m = .ok b' →
    b'.bytes = b.bytes ∧ b'.length = b.length + fresh.length ∧ b'.free = unit
  /-- A growth that fails leaves a one-shot operation as it was. -/
  unchanged : ∀ {put fresh asked} {κ : Type} {o o' : OneShot κ} {m : Memory} {x : Halt Error},
    Extended first put fresh asked o.destination → OneShot.grow m o = .error x o' →
    o' = o ∧ (x = .failed .notEnoughDestinationBuffer ∨ x = .failed .allocateFailed)
  /-- What compression gives was put into the buffer by the codec. -/
  compresses : ∀ {κ : Type} [Codec κ] {make : CompressorOptions → Except Error κ} {turns : Nat}
    {o : CompressorOptions} {source out : ByteArray} {log : Log}, o.destinationLength = unit →
    (OneShot.compress memory make turns o source log).result = .ok out →
    ∃ start last, make (o.orPledge source.size) = .ok start
      ∧ OneShot.Collects first memory start last ∧ out = last.destination.bytes
  /-- What decompression gives was put into the buffer by the codec. -/
  decompresses : ∀ {κ : Type} [Codec κ] {make : DecompressorOptions → Except Error κ} {turns : Nat}
    {o : DecompressorOptions} {source out : ByteArray} {log : Log}, o.destinationLength = unit →
    (OneShot.decompress memory make turns o source log).result = .ok out →
    ∃ start last, make o = .ok start
      ∧ OneShot.Collects first memory start last ∧ out = last.destination.bytes

/-! ## What growing comes to -/

section Grow

variable {memory : Memory} {b b' : GrowableBuffer}

/-- A buffer with a whole unit free is not grown. -/
theorem grow_of_unit_free (h : b.free = b.unit) (memory : Memory) :
    b.grow memory = .error .notEnoughDestinationBuffer := if_pos h

/-- Any other is grown to one unit of room, if that length is granted. -/
theorem grow_of_unit_used (h : b.free ≠ b.unit) (memory : Memory) :
    b.grow memory = if memory.grants (b.bytes.size + b.unit) = true
      then .ok { b with length := b.bytes.size + b.unit } else .error .allocateFailed := if_neg h

/-- A buffer that has grown had not a whole unit free, and its length was granted. -/
theorem grow_ok (h : b.grow memory = .ok b') :
    b.free ≠ b.unit ∧ memory.grants b'.length = true
      ∧ b' = { b with length := b.bytes.size + b.unit } := by
  by_cases hfree : b.free = b.unit
  · rw [grow_of_unit_free hfree] at h
    cases h
  · rw [grow_of_unit_used hfree] at h
    split at h <;> cases h
    next hgranted => exact ⟨hfree, hgranted, rfl⟩

end Grow

/-! ## What puts and growths keep -/

/-- A buffer holds what was put, and what was put since it last grew and what is free make up one
unit. -/
structure Accounted (unit : Nat) (put fresh : List UInt8) (b : GrowableBuffer) : Prop where
  bytes : b.bytes.data.toList = put
  size_le : b.bytes.size ≤ b.length
  unit_eq : b.unit = unit
  free_eq : b.free + fresh.length = unit

variable {unit : Nat} {put fresh : List UInt8} {asked : List Memory} {memory : Memory}
  {first b b' : GrowableBuffer}

theorem accounted_new (unit : Nat) : Accounted unit [] [] ⟨.empty, unit, unit⟩ :=
  ⟨rfl, Nat.zero_le _, rfl, rfl⟩

/-- What is put takes from what is free. -/
theorem Accounted.append (h : Accounted unit put fresh b) {produced : ByteArray}
    (hp : produced.size ≤ b.free) :
    Accounted unit (put ++ produced.data.toList) (fresh ++ produced.data.toList)
      (b.append produced) := by
  have hsize := h.size_le
  have hfree := h.free_eq
  have hlength : produced.data.toList.length = produced.size := rfl
  unfold free at hp hfree
  refine ⟨?_, ?_, h.unit_eq, ?_⟩
  · rw [toList_append, h.bytes]
  · rw [size_append]
    show _ ≤ b.length
    omega
  · rw [List.length_append, hlength, free, size_append]
    show b.length - _ + _ = _
    omega

/-- Growing frees a unit. -/
theorem Accounted.grow (h : Accounted unit put fresh b) (hgrow : b.grow memory = .ok b') :
    Accounted unit put [] b' := by
  obtain ⟨-, -, rfl⟩ := grow_ok hgrow
  have hunit := h.unit_eq
  refine ⟨h.bytes, Nat.le_add_right _ _, hunit, ?_⟩
  show b.bytes.size + b.unit - b.bytes.size + 0 = unit
  omega

theorem Extended.accounted (h : Extended ⟨.empty, unit, unit⟩ put fresh asked b) :
    Accounted unit put fresh b := by
  induction h with
  | new => exact accounted_new unit
  | append _ hp ih => exact ih.append hp
  | grow _ hgrow ih => exact ih.grow hgrow
  | refuse _ _ ih => exact ih

/-- A whole unit is free just if nothing was put since the buffer last grew. -/
theorem Accounted.free_eq_unit_iff (h : Accounted unit put fresh b) :
    b.free = b.unit ↔ fresh = [] := by
  have hfree := h.free_eq
  rw [h.unit_eq, ← List.length_eq_zero_iff]
  omega

/-- Where nothing was put, growing is refused; otherwise it is a matter of memory. -/
theorem Accounted.grow_eq (h : Accounted unit put fresh b) (memory : Memory) :
    b.grow memory = if fresh = [] then .error .notEnoughDestinationBuffer
      else if memory.grants (b.bytes.size + unit) = true
        then .ok { b with length := b.bytes.size + unit } else .error .allocateFailed := by
  by_cases hfresh : fresh = []
  · rw [if_pos hfresh, grow_of_unit_free (h.free_eq_unit_iff.mpr hfresh)]
  · rw [if_neg hfresh, grow_of_unit_used (mt h.free_eq_unit_iff.mp hfresh), h.unit_eq]

/-- Growing lengthens a buffer by what was put since it last grew. -/
theorem Accounted.length_of_grow (h : Accounted unit put fresh b) (hgrow : b.grow memory = .ok b') :
    b'.length = b.length + fresh.length := by
  obtain ⟨-, -, rfl⟩ := grow_ok hgrow
  have hsize := h.size_le
  have hfree := h.free_eq
  rw [← h.unit_eq] at hfree
  unfold free at hfree
  show b.bytes.size + b.unit = _
  omega

/-- The length of a buffer was granted, so it is within what is granted at all. -/
theorem Extended.length_lt {limit : Nat} (h : Extended first put fresh asked b)
    (hfirst : first.length < limit) (hasked : ∀ m ∈ asked, m.Within limit) : b.length < limit := by
  -- a put leaves the length as it is, and a growth makes it one that was granted
  induction h with
  | new => exact hfirst
  | append _ _ ih => exact ih hasked
  | grow _ hgrow _ => exact hasked _ (by simp) _ (grow_ok hgrow).2.1
  | refuse _ _ ih => exact ih fun m hm => hasked m (List.mem_append_left _ hm)

end GrowableBuffer

/-! ## One-shot operations -/

namespace OneShot

/-- A growth that fails leaves the operation as it was. -/
theorem grow_error {κ : Type} {memory : Memory} {o o' : OneShot κ} {x : Halt Error}
    (h : grow memory o = .error x o') :
    o' = o ∧ ∃ e, x = .failed e ∧ o.destination.grow memory = .error e := by
  obtain ⟨codec, destination, log⟩ := o
  dsimp only [grow] at h
  split at h <;> cases h
  next e hgrow => exact ⟨rfl, e, rfl, hgrow⟩

variable {κ : Type} [Codec κ] {first : GrowableBuffer} {memory : Memory} {start : κ}
  {o : OneShot κ}

theorem collects_new (first : GrowableBuffer) (memory : Memory) (start : κ) (log : Log) :
    Collects first memory start ⟨start, first, log⟩ :=
  ⟨[], [], [], .nil, .new, by simp⟩

/-- A step puts what the codec gives. -/
theorem Collects.step (h : Collects first memory start o) (input : Slice) (directive : Directive) :
    Ensures (step input directive) o (fun _ o' => Collects first memory start o')
      (fun _ _ => True) := by
  refine (step_ensures input directive o).mono ?_ (fun _ _ _ => trivial)
  intro s o' hdone
  obtain ⟨hstep, hdest⟩ := hdone
  obtain ⟨calls, fresh, asked, hsteps, hextended, hasked⟩ := h
  have hput := hextended.append (Codec.produced_le hstep)
  rw [← hdest, ← givenBy_snoc_ok] at hput
  exact ⟨_, _, asked, hsteps.snoc hstep, hput, hasked⟩

/-- Growing puts nothing. -/
theorem Collects.grow (h : Collects first memory start o) :
    Ensures (grow memory) o (fun _ o' => Collects first memory start o') (fun _ _ => True) := by
  refine (grow_ensures memory o).mono ?_ (fun _ _ _ => trivial)
  intro _ o' hdone
  obtain ⟨hcodec, hgrow⟩ := hdone
  obtain ⟨calls, fresh, asked, hsteps, hextended, hasked⟩ := h
  refine ⟨calls, [], asked ++ [memory], hcodec ▸ hsteps, hextended.grow hgrow, ?_⟩
  exact List.forall_mem_append.mpr ⟨hasked, List.forall_mem_singleton.mpr rfl⟩

theorem Collects.feedAll : ∀ (turns : Nat) (remaining : Slice) {o : OneShot κ},
    Collects first memory start o →
    Ensures (feedAll memory turns remaining) o (fun _ o' => Collects first memory start o')
      (fun _ _ => True) := by
  intro turns
  induction turns with
  | zero => exact fun _ _ _ => Ensures.throw trivial
  | succ turns ih =>
      intro remaining o h
      show Ensures (if remaining.isEmpty = true then _ else _) o _ _
      split
      · exact Ensures.pure h
      · refine Ensures.bind (h.step remaining .feed) fun s o₁ h₁ => ?_
        -- the destination is grown with room left, too, after a step that did nothing
        show Ensures (if (o₁.destination.isFull || !s.madeProgress) = true then _ else _) o₁ _ _
        split
        · exact Ensures.bind h₁.grow fun _ _ h₂ => ih _ h₂
        · exact ih _ h₁

theorem Collects.finish : ∀ (turns : Nat) {o : OneShot κ}, Collects first memory start o →
    Ensures (finish memory turns) o (fun _ o' => Collects first memory start o')
      (fun _ _ => True) := by
  intro turns
  induction turns with
  | zero => exact fun _ => Ensures.throw trivial
  | succ turns ih =>
      intro o h
      refine Ensures.bind (h.step .empty .finish) fun s o₁ h₁ => ?_
      cases s.completion with
      | done => exact Ensures.pure h₁
      | pending => exact Ensures.bind h₁.grow fun _ _ h₂ => ih h₂

theorem Collects.feedFrames : ∀ (turns : Nat) (remaining : Slice) {o : OneShot κ},
    Collects first memory start o →
    Ensures (feedFrames memory turns remaining) o (fun _ o' => Collects first memory start o')
      (fun _ _ => True) := by
  intro turns
  induction turns with
  | zero => exact fun _ _ _ => Ensures.throw trivial
  | succ turns ih =>
      intro remaining o h
      refine Ensures.bind (h.step remaining .feed) fun s o₁ h₁ => ?_
      show Ensures (if o₁.destination.isFull = true then _ else _) o₁ _ _
      split
      · exact Ensures.bind h₁.grow fun _ _ h₂ => ih _ h₂
      · split
        · exact Ensures.pure h₁
        · split
          · exact ih _ h₁
          · exact Ensures.throw trivial

theorem Collects.endOfInput (h : Collects first memory start o) :
    Ensures endOfInput o (fun _ o' => Collects first memory start o') (fun _ _ => True) := by
  refine (endOfInput_ensures o).mono ?_ (fun _ _ _ => trivial)
  intro _ o' hdone
  rw [hdone.1]
  exact h

/-- **Compression collects** what its codec gives. -/
theorem compress_collects {make : CompressorOptions → Except Error κ} {turns : Nat}
    {o : CompressorOptions} {source out : ByteArray} {log : Log}
    (h : (compress memory make turns o source log).result = .ok out) :
    ∃ start last, make (o.orPledge source.size) = .ok start
      ∧ Collects ⟨.empty, o.destinationLength, o.destinationLength⟩ memory start last
      ∧ out = last.destination.bytes := by
  unfold compress at h
  split at h
  · cases h
  split at h
  · cases h
  next start log' hsetUp =>
  obtain ⟨last, hwork, hout, -⟩ := run_ok h
  refine ⟨start, last, CompressorOptions.setUp_ok hsetUp, ?_, hout⟩
  exact (Ensures.bind ((collects_new _ memory start log').feedAll turns (.ofBytes source))
    fun _ _ h₁ => h₁.finish turns).of_ok hwork

/-- **Decompression collects** what its codec gives. -/
theorem decompress_collects {make : DecompressorOptions → Except Error κ} {turns : Nat}
    {o : DecompressorOptions} {source out : ByteArray} {log : Log}
    (h : (decompress memory make turns o source log).result = .ok out) :
    ∃ start last, make o = .ok start
      ∧ Collects ⟨.empty, o.destinationLength, o.destinationLength⟩ memory start last
      ∧ out = last.destination.bytes := by
  unfold decompress at h
  split at h
  · cases h
  split at h
  · cases h
  next start log' hsetUp =>
  obtain ⟨last, hwork, hout, -⟩ := run_ok h
  refine ⟨start, last, DecompressorOptions.setUp_ok hsetUp, ?_, hout⟩
  exact (Ensures.bind ((collects_new _ memory start log').feedFrames turns (.ofBytes source))
    fun _ _ h₁ => h₁.endOfInput).of_ok hwork

end OneShot

/-! ## Growth by units -/

namespace GrowableBuffer

/-- What a buffer is made of was granted. -/
theorem granted_of_create {memory : Memory} {unit : Nat} {b : GrowableBuffer}
    (h : create memory unit = .ok b) : memory.grants unit = true := by
  unfold create at h
  split at h
  · assumption
  · cases h

/-- A new buffer grows by units, if its first unit was granted. -/
theorem growsByUnits_new {memory : Memory} {unit : Nat} (hunit : memory.grants unit = true) :
    GrowsByUnits ⟨.empty, unit, unit⟩ memory unit where
  fits {put fresh asked b} h := by
    have hb := h.accounted
    have hfree := hb.free_eq
    unfold free at hfree
    exact ⟨hb.size_le, by omega⟩
  addressable {put fresh asked b} h hwithin := by
    -- the output is within one granted length, and the unit is another
    obtain ⟨hmemory, hasked⟩ := List.forall_mem_cons.mp hwithin
    have hfirst : unit < 2 ^ 63 := hmemory unit hunit
    have hlength : b.length < 2 ^ 63 := h.length_lt hfirst hasked
    have hsize := h.accounted.size_le
    omega
  bytes h := h.accounted.bytes
  grows {put fresh asked b} m h hmemory := by
    have hb := h.accounted
    constructor
    · intro hgrown
      obtain ⟨b', hgrow⟩ := hgrown
      exact mt hb.free_eq_unit_iff.mpr (grow_ok hgrow).1
    · intro hfresh
      by_cases hm : m.grants (b.bytes.size + unit) = true
      · exact ⟨_, by rw [hb.grow_eq, if_neg hfresh, if_pos hm]⟩
      · exact absurd (by rw [hb.grow_eq, if_neg hfresh, if_neg hm]) hmemory
  refused {put fresh asked b} m h := by
    rw [h.accounted.grow_eq]
    by_cases hfresh : fresh = []
    · exact iff_of_true (if_pos hfresh) hfresh
    · rw [if_neg hfresh]
      split <;> simp [hfresh]
  unallocated {put fresh asked b} m h := by
    rw [h.accounted.grow_eq]
    by_cases hfresh : fresh = []
    · simp [hfresh]
    · rw [if_neg hfresh]
      cases hm : m.grants (b.bytes.size + unit) <;> simp [hfresh]
  room h hgrow := by
    have hb := h.accounted
    have hgrown := hb.grow hgrow
    exact ⟨by rw [(grow_ok hgrow).2.2], hb.length_of_grow hgrow, hgrown.free_eq⟩
  unchanged {put fresh asked κ o o' m x} h hgrow := by
    obtain ⟨rfl, e, rfl, he⟩ := OneShot.grow_error hgrow
    rw [h.accounted.grow_eq] at he
    refine ⟨rfl, ?_⟩
    split at he
    · cases he
      exact .inl rfl
    · split at he <;> cases he
      exact .inr rfl
  compresses hlength h := hlength ▸ OneShot.compress_collects h
  decompresses hlength h := hlength ▸ OneShot.decompress_collects h

end GrowableBuffer

/-- **A growable buffer grows by units**, and keeps what was put into it, whatever its unit. -/
theorem growable_buffers_grow_by_units {memory : Memory} {unit : Nat} {first : GrowableBuffer}
    (h : GrowableBuffer.create memory unit = .ok first) : first.GrowsByUnits memory unit := by
  obtain rfl := GrowableBuffer.create_eq h
  exact GrowableBuffer.growsByUnits_new (GrowableBuffer.granted_of_create h)

/-! ### Three bytes at a time -/

namespace ThreeBytes

def first : GrowableBuffer := ⟨.empty, 3, 3⟩

/-- Two bytes are put, and the buffer grows although there is room for one more. -/
def grown : GrowableBuffer := ⟨⟨#[0x61, 0x62]⟩, 5, 3⟩

/-- A third byte is put. -/
def held : GrowableBuffer := ⟨⟨#[0x61, 0x62, 0x63]⟩, 5, 3⟩

/-- Memory that is used up. -/
def exhausted : Memory := ⟨fun _ => false⟩

theorem extended_grown : Extended first [0x61, 0x62] [] [.machine] grown := by
  have hroom : (⟨#[0x61, 0x62]⟩ : ByteArray).size ≤ first.free := by decide
  exact .grow (.append .new hroom) rfl

/-- When the buffer is to grow again, there is no memory. -/
theorem extended_held : Extended first [0x61, 0x62, 0x63] [0x63] [.machine, exhausted] held := by
  have hroom : (⟨#[0x63]⟩ : ByteArray).size ≤ grown.free := by decide
  exact .refuse (.append extended_grown hroom) rfl

theorem within : ∀ m ∈ [Memory.machine, .machine, exhausted], m.Within (2 ^ 63) := by
  have hmachine : Memory.machine.Within (2 ^ 63) := fun length h =>
    Nat.lt_trans (of_decide_eq_true h) (by decide)
  simp only [List.forall_mem_cons]
  exact ⟨hmachine, hmachine, nofun, by simp⟩

/-- A codec that copies, and ends a frame with one byte. -/
def make (_ : CompressorOptions) : Except Error CopyingCodec := .ok ⟨none, .ofBytes ⟨#[0x65]⟩⟩

def source : ByteArray := ⟨#[0x61, 0x62, 0x63, 0x64]⟩

end ThreeBytes

/-- A buffer that has just grown is not grown again; once a byte was put into it, it is a matter of
memory, and where there is none the bytes are kept. Four bytes and a fifth take two units. -/
theorem growable_buffers_grow_by_units_of_three_bytes :
    GrowableBuffer.create .machine 3 = .ok ThreeBytes.first
      ∧ ThreeBytes.grown.grow .machine = .error .notEnoughDestinationBuffer
      ∧ ThreeBytes.held.grow ThreeBytes.exhausted = .error .allocateFailed
      ∧ ThreeBytes.held.bytes.data.toList = [0x61, 0x62, 0x63]
      ∧ ThreeBytes.held.bytes.size + 3 < 2 ^ 64
      ∧ (∃ b, ThreeBytes.held.grow .machine = .ok b ∧ b.bytes = ThreeBytes.held.bytes
        ∧ b.length = 6 ∧ b.free = 3)
      ∧ ∃ start last, OneShot.Collects (κ := CopyingCodec) ThreeBytes.first .machine start last
        ∧ last.destination.bytes = ⟨#[0x61, 0x62, 0x63, 0x64, 0x65]⟩ := by
  have hcreate : GrowableBuffer.create .machine 3 = .ok ThreeBytes.first := rfl
  have hgrows := growable_buffers_grow_by_units hcreate
  have hmemory : ThreeBytes.held.grow .machine ≠ .error .allocateFailed := nofun
  obtain ⟨b, hb⟩ := (hgrows.grows _ ThreeBytes.extended_held hmemory).mpr (by simp)
  obtain ⟨hbytes, hlength, hfree⟩ := hgrows.room ThreeBytes.extended_held hb
  have hcompress : (OneShot.compress .machine ThreeBytes.make 9 { destinationBufferLength := 3 }
      ThreeBytes.source #[]).result = .ok ⟨#[0x61, 0x62, 0x63, 0x64, 0x65]⟩ := rfl
  obtain ⟨start, last, -, hcollects, hout⟩ := hgrows.compresses rfl hcompress
  exact ⟨hcreate, (hgrows.refused _ ThreeBytes.extended_grown).mpr rfl,
    (hgrows.unallocated _ ThreeBytes.extended_held).mpr ⟨by simp, rfl⟩,
    hgrows.bytes ThreeBytes.extended_held,
    hgrows.addressable ThreeBytes.extended_held ThreeBytes.within,
    ⟨b, hb, hbytes, hlength, hfree⟩, start, last, hcollects, hout.symm⟩

end Zstandard
