import Zstandard.Slice

/-!
# Windows: what a match may reach back to

Decoded content is written into memory, one byte behind the other. When another block might not
fit, writing goes on at the beginning of the memory, over the oldest content. So there are two runs
of content: the one being written, and an earlier one that stands before it, which is a part of the
memory or a dictionary. An offset counts back through the newer run, and from its beginning on
through the earlier one. What it finds there is what the memory holds now: where the newer run has
been written over the earlier one, that is the newer content.
-/

namespace Zstandard

/-- The run of content before the one being written. -/
inductive EarlierRun where
  /-- It stands apart from the memory. -/
  | apart (content : Slice)
  /-- It is a part of the memory. -/
  | inside (start stop : Nat)

/-- How many bytes the run has. -/
def EarlierRun.size : EarlierRun → Nat
  | .apart content => content.size
  | .inside start stop => stop - start

/-- Memory with decoded content. -/
structure Window where
  /-- The memory, as far as it has been written. -/
  bytes : ByteArray
  /-- Where the run begins that is being written. -/
  start : Nat
  /-- Where the next byte goes. -/
  stop : Nat
  /-- The run before it. -/
  earlier : EarlierRun

namespace Window

/-- Memory without content, behind a dictionary. -/
def behind (dictionary : Slice) : Window := ⟨.empty, 0, 0, .apart dictionary⟩

/-- How far an offset may reach. -/
def reach (w : Window) : Nat := w.stop - w.start + w.earlier.size

/-- The window with the next byte going to `place`. A run that is left ends there. -/
def goTo (w : Window) (place : Nat) : Window :=
  if w.stop = place then w
  else
    match w with
    | ⟨bytes, start, stop, _⟩ => ⟨bytes, place, place, .inside start stop⟩

/-- Writes some bytes into memory from `place` on. -/
def writeAt (bytes : ByteArray) (place : Nat) (piece : Slice) : ByteArray :=
  piece.bytes.copySlice piece.start bytes place piece.size false

/-- The window with some bytes more. -/
def append (w : Window) (piece : Slice) : Window :=
  match w with
  | ⟨bytes, start, stop, earlier⟩ =>
    ⟨writeAt bytes stop piece, start, stop + piece.size, earlier⟩

/-- Copies `length` bytes of memory, one after another, from one place to another. -/
def copyForward : (length source target : Nat) → ByteArray → ByteArray
  | 0, _, _, bytes => bytes
  | n + 1, source, target, bytes =>
    let b := byteAt bytes source
    copyForward n (source + 1) (target + 1)
      (if h : target < bytes.size then bytes.set target b h else bytes.push b)

/-- The first bytes of what stands `back` bytes before the newer run, at most `length`. -/
def fromEarlier (w : Window) (back length : Nat) : Slice :=
  match w.earlier with
  | .apart content => (content.drop (content.size - back)).take length
  | .inside _ stop =>
    .ofBytes (w.bytes.extract (stop - back) (stop - back + min length back))

/-- The window with `length` bytes more, each a copy of the one that stands `offset` back, if there
is one. What is in the earlier run is copied at one time. -/
def copyBack? (w : Window) (offset length : Nat) : Option Window :=
  let run := w.stop - w.start
  if offset ≤ run then
    match w with
    | ⟨bytes, start, stop, earlier⟩ =>
      some ⟨copyForward length (stop - offset) stop bytes, start, stop + length, earlier⟩
  else if w.reach < offset then none
  else
    let piece := w.fromEarlier (offset - run) length
    match w with
    | ⟨bytes, start, stop, earlier⟩ =>
      let bytes := writeAt bytes stop piece
      some ⟨copyForward (length - piece.size) start (stop + piece.size) bytes, start,
        stop + length, earlier⟩

/-- The content between two places. -/
def content (w : Window) (start stop : Nat) : ByteArray := w.bytes.extract start stop

end Window

end Zstandard
