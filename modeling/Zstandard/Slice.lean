import Zstandard.Instances

/-!
# Slices: a run of bytes inside a larger array

Every driver hands its codec a part of a buffer and takes back how much of it was used. A
slice is that part, held as an array with two bounds, so that using up a prefix moves a bound
and copies nothing. The view of a slice is `toList`; each operation states what it does to it:

* `ofBytes` is the whole array;
* `take` and `drop` are those of lists;
* `appendTo` puts the bytes behind those of an array.
-/

namespace Zstandard

/-- Byte `i` of an array, and 0 behind its end. -/
def byteAt (b : ByteArray) (i : Nat) : UInt8 := if h : i < b.size then b[i] else 0

/-- The bytes of `bytes` from `start` up to, and without, `stop`. -/
structure Slice where
  bytes : ByteArray
  start : Nat
  stop : Nat
  start_le : start ≤ stop
  stop_le : stop ≤ bytes.size

namespace Slice

/-- The number of bytes in the slice. -/
def size (s : Slice) : Nat := s.stop - s.start

/-- Whether the slice holds no byte. -/
def isEmpty (s : Slice) : Bool := s.size == 0

/-- A whole array as a slice. -/
def ofBytes (b : ByteArray) : Slice := ⟨b, 0, b.size, Nat.zero_le _, Nat.le_refl _⟩

/-- The slice without bytes. -/
def empty : Slice := ofBytes ByteArray.empty

instance : Inhabited Slice := ⟨empty⟩

/-- The slice without its first `n` bytes. -/
def drop (s : Slice) (n : Nat) : Slice :=
  ⟨s.bytes, min (s.start + n) s.stop, s.stop, Nat.min_le_right _ _, s.stop_le⟩

/-- The first `n` bytes of the slice. -/
def take (s : Slice) (n : Nat) : Slice :=
  ⟨s.bytes, s.start, min (s.start + n) s.stop,
    by have := s.start_le; omega, by have := s.stop_le; omega⟩

/-- Byte `i`, and 0 behind the end. -/
def byte (s : Slice) (i : Nat) : UInt8 :=
  if h : s.start + i < s.stop then s.bytes.get (s.start + i) (Nat.lt_of_lt_of_le h s.stop_le) else 0

/-- The bytes as an array of their own. -/
def toBytes (s : Slice) : ByteArray := s.bytes.extract s.start s.stop

/-- The bytes as a list. -/
def toList (s : Slice) : List UInt8 := s.toBytes.data.toList

/-- The bytes behind those of `b`. -/
def appendTo (s : Slice) (b : ByteArray) : ByteArray :=
  s.bytes.copySlice s.start b b.size s.size false

/-- The number whose `n` bytes stand at `i`, the lowest first. -/
def littleEndian (s : Slice) (i : Nat) : Nat → Nat
  | 0 => 0
  | n + 1 => (s.byte i).toNat + 256 * s.littleEndian (i + 1) n

/-! ## The view -/

theorem toList_eq (s : Slice) : s.toList = (s.bytes.data.toList.take s.stop).drop s.start := by
  simp [toList, toBytes, List.drop_take]

@[simp] theorem length_toList (s : Slice) : s.toList.length = s.size := by
  have h := s.stop_le
  have : s.bytes.data.toList.length = s.bytes.size := rfl
  simp only [toList_eq, List.length_drop, List.length_take, size]
  omega

@[simp] theorem toList_ofBytes (b : ByteArray) : (ofBytes b).toList = b.data.toList := by
  simp only [toList_eq, ofBytes, List.drop_zero]
  exact List.take_of_length_le (Nat.le_refl _)

@[simp] theorem size_ofBytes (b : ByteArray) : (ofBytes b).size = b.size := rfl

@[simp] theorem size_empty : empty.size = 0 := rfl

theorem size_drop (s : Slice) (n : Nat) : (s.drop n).size = s.size - n := by
  simp only [drop, size]; omega

theorem size_take (s : Slice) (n : Nat) : (s.take n).size = min n s.size := by
  have := s.start_le
  simp only [take, size]; omega

@[simp] theorem toList_drop (s : Slice) (n : Nat) : (s.drop n).toList = s.toList.drop n := by
  simp only [toList_eq, drop, List.drop_drop]
  rcases Nat.le_total (s.start + n) s.stop with h | h
  · rw [Nat.min_eq_left h]
  · rw [Nat.min_eq_right h, List.drop_eq_nil_of_le (by rw [List.length_take]; omega),
      List.drop_eq_nil_of_le (by rw [List.length_take]; omega)]

@[simp] theorem toList_take (s : Slice) (n : Nat) : (s.take n).toList = s.toList.take n := by
  have := s.start_le
  simp only [toList_eq, take, List.take_drop, List.take_take]

theorem appendTo_eq (s : Slice) (b : ByteArray) : s.appendTo b = b ++ s.toBytes := by
  have h₁ := s.start_le
  have h₂ := s.stop_le
  ext1
  have hb : b.size = b.data.size := rfl
  have hs : s.start + (s.stop - s.start) = s.stop := by omega
  simp only [appendTo, ByteArray.copySlice, toBytes, ByteArray.data_append, ByteArray.data_extract,
    hb, size, hs, Array.extract_size]
  rw [Array.extract_empty_of_size_le_start (Nat.le_add_right _ _), Array.append_empty]

end Slice

/-- The `n` bytes of a number, the lowest first, behind those of `out`. -/
def pushLittleEndian (out : ByteArray) (value : Nat) : (n : Nat) → ByteArray
  | 0 => out
  | n + 1 => pushLittleEndian (out.push value.toUInt8) (value / 256) n

end Zstandard
