import Zstandard.Buffer.Memory
import Zstandard.Endpoint

/-!
# Source buffers: a bounded queue between a reader and a codec

A source buffer holds the bytes that have been read and not yet handed on, at most `capacity` of
them. A refill moves them to the front and offers the reader all the room behind them; a full
buffer cannot be refilled. The view is the pending bytes: `consume` takes from their front,
`refill` adds behind them what one read gave.
-/

namespace Zstandard

/-- What a refill came to. -/
inductive Refill where
  | read (size : Nat)
  | finished
  deriving Repr, DecidableEq

/-- Bytes read from a reader, of which the first `consumed` have been handed on. -/
structure SourceBuffer where
  bytes : ByteArray
  consumed : Nat
  capacity : Nat

namespace SourceBuffer

/-- An empty buffer of a given capacity. -/
def create (memory : Memory) (capacity : Nat) : Except Error SourceBuffer :=
  if memory.grants capacity then .ok ⟨.empty, 0, capacity⟩ else .error .allocateFailed

/-- The bytes that have been read and not handed on. -/
def pending (b : SourceBuffer) : Slice := (Slice.ofBytes b.bytes).drop b.consumed

/-- Hands on the first `n` pending bytes. -/
def consume (b : SourceBuffer) (n : Nat) : SourceBuffer := { b with consumed := b.consumed + n }

/-- Moves the pending bytes to the front. -/
def compact (b : SourceBuffer) : SourceBuffer :=
  if b.consumed = 0 then b
  else { b with bytes := b.bytes.extract b.consumed b.bytes.size, consumed := 0 }

/-- One read into the room behind the bytes, repeated while it is interrupted. -/
def fill {ρ : Type} [Reader ρ] :
    (turns : Nat) → SourceBuffer → ρ → Except (Halt Error) Refill × SourceBuffer × ρ
  | 0, b, r => (.error .outOfTurns, b, r)
  | turns + 1, b, r =>
    match Reader.read r (b.capacity - b.bytes.size) with
    | (.ok chunk, r) =>
      if chunk.size = 0 then (.ok .finished, b, r)
      else
        match b with
        | ⟨bytes, consumed, capacity⟩ =>
          (.ok (.read chunk.size), ⟨bytes ++ chunk, consumed, capacity⟩, r)
    | (.error e, r) =>
      if e.kind = .interrupted then fill turns b r else (.error (.failed (.readIo e)), b, r)

/-- Moves the pending bytes to the front and reads into the room behind them. -/
def refill {ρ : Type} [Reader ρ] (turns : Nat) (b : SourceBuffer) (r : ρ) :
    Except (Halt Error) Refill × SourceBuffer × ρ :=
  let b := b.compact
  if b.bytes.size = b.capacity then (.error (.failed .notEnoughSourceBuffer), b, r)
  else b.fill turns r

end SourceBuffer

end Zstandard
