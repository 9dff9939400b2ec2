import Zstandard.Slice

/-!
# The content checksum

XXH64 with seed 0. Stripes of 32 bytes go through four lanes; what is left over after the last
stripe is mixed in at the end. A running hash keeps its lanes and the bytes of an unfinished
stripe, so content can be added piece by piece.
-/

namespace Zstandard

/-- A hash of the content so far. -/
structure XXH64 where
  lane₁ : UInt64
  lane₂ : UInt64
  lane₃ : UInt64
  lane₄ : UInt64
  /-- How many bytes were added. -/
  total : Nat
  /-- The bytes of the unfinished stripe. -/
  rest : ByteArray

namespace XXH64

def prime₁ : UInt64 := 0x9E3779B185EBCA87
def prime₂ : UInt64 := 0xC2B2AE3D27D4EB4F
def prime₃ : UInt64 := 0x165667B19E3779F9
def prime₄ : UInt64 := 0x85EBCA77C2B2AE63
def prime₅ : UInt64 := 0x27D4EB2F165667C5

/-- The hash of no content. -/
def empty : XXH64 :=
  ⟨prime₁ + prime₂, prime₂, 0, 0 - prime₁, 0, .empty⟩

/-- The bits of a word turned left. -/
def rotate (x : UInt64) (n : UInt64) : UInt64 := (x <<< n) ||| (x >>> (64 - n))

/-- One word through a lane. -/
def round (lane word : UInt64) : UInt64 := rotate (lane + word * prime₂) 31 * prime₁

/-- One lane into the result. -/
def merge (hash lane : UInt64) : UInt64 := (hash ^^^ round 0 lane) * prime₁ + prime₄

/-- The word of `n` bytes at `i`, the lowest first. -/
def word (s : Slice) (i : Nat) : Nat → UInt64
  | 0 => 0
  | n + 1 => (s.byte i).toUInt64 ||| (word s (i + 1) n <<< 8)

/-- `n` stripes of `s`, beginning at `i`, through the lanes. -/
def stripes (s : Slice) (i : Nat) (h : XXH64) : Nat → XXH64
  | 0 => h
  | n + 1 =>
    stripes s (i + 32)
      ⟨round h.lane₁ (word s i 8), round h.lane₂ (word s (i + 8) 8),
        round h.lane₃ (word s (i + 16) 8), round h.lane₄ (word s (i + 24) 8), h.total, h.rest⟩ n

/-- The hash with more content. -/
def update (h : XXH64) (s : Slice) : XXH64 :=
  let bytes := if h.rest.isEmpty then s else .ofBytes (s.appendTo h.rest)
  let n := bytes.size / 32
  let h' := stripes bytes 0 h n
  ⟨h'.lane₁, h'.lane₂, h'.lane₃, h'.lane₄, h.total + s.size, (bytes.drop (32 * n)).toBytes⟩

/-- The bytes of the unfinished stripe, mixed in eight, four, and one at a time. -/
def mixRest (s : Slice) (i : Nat) (hash : UInt64) : Nat → UInt64
  | 0 => hash
  | fuel + 1 =>
    if i + 8 ≤ s.size then
      mixRest s (i + 8) (rotate (hash ^^^ round 0 (word s i 8)) 27 * prime₁ + prime₄) fuel
    else if i + 4 ≤ s.size then
      mixRest s (i + 4) (rotate (hash ^^^ (word s i 4 * prime₁)) 23 * prime₂ + prime₃) fuel
    else if i < s.size then
      mixRest s (i + 1) (rotate (hash ^^^ (word s i 1 * prime₅)) 11 * prime₁) fuel
    else hash

/-- Spreads every bit over the whole word. -/
def avalanche (hash : UInt64) : UInt64 :=
  let hash := (hash ^^^ (hash >>> 33)) * prime₂
  let hash := (hash ^^^ (hash >>> 29)) * prime₃
  hash ^^^ (hash >>> 32)

/-- The hash as a word. -/
def digest (h : XXH64) : UInt64 :=
  let lanes :=
    if 32 ≤ h.total then
      let sum := rotate h.lane₁ 1 + rotate h.lane₂ 7 + rotate h.lane₃ 12 + rotate h.lane₄ 18
      merge (merge (merge (merge sum h.lane₁) h.lane₂) h.lane₃) h.lane₄
    else prime₅
  let rest := Slice.ofBytes h.rest
  avalanche (mixRest rest 0 (lanes + h.total.toUInt64) (rest.size + 1))

/-- The low 32 bits of the hash, which is what a frame records. -/
def low32 (h : XXH64) : Nat := h.digest.toNat % 4294967296

/-- The hash of an array. -/
def ofBytes (b : ByteArray) : UInt64 := (empty.update (.ofBytes b)).digest

end XXH64

end Zstandard
