import Zstandard.Session
import Zstandard.Proofs.Buffers
import Zstandard.Proofs.Calls

/-!
# The operations of a session, by the step of its codec

Each operation of an active session is one step of its codec, or none. The equations below say what
an operation comes to when that step is known; a driver of a session is followed by them.
-/

namespace Zstandard

namespace Session

variable {κ : Type} [Codec κ] {codec codec' : κ} {destination : DestinationBuffer} {input : Slice}

theorem push_ok {s : Step}
    (h : Codec.step codec input destination.free .feed = (.ok s, codec')) :
    push input ⟨codec, destination, .active⟩
      = (.ok ⟨s.consumed, (destination.append s.produced).isFull⟩,
          ⟨codec', destination.append s.produced, .active⟩) := by
  simp only [push, step, h]

theorem push_error {e : Error}
    (h : Codec.step codec input destination.free .feed = (.error e, codec')) :
    push input ⟨codec, destination, .active⟩ = (.error e, ⟨codec', destination, .active⟩) := by
  simp only [push, step, h]

theorem flush_ok {s : Step}
    (h : Codec.step codec .empty destination.free .flush = (.ok s, codec')) :
    flush ⟨codec, destination, .active⟩
      = (.ok (s.completion == .pending), ⟨codec', destination.append s.produced, .active⟩) := by
  simp only [flush, step, h]

theorem flush_error {e : Error}
    (h : Codec.step codec .empty destination.free .flush = (.error e, codec')) :
    flush ⟨codec, destination, .active⟩ = (.error e, ⟨codec', destination, .active⟩) := by
  simp only [flush, step, h]

/-- The last step of a frame finishes the session. -/
theorem finish_done {s : Step}
    (h : Codec.step codec .empty destination.free .finish = (.ok s, codec'))
    (hs : s.completion = .done) :
    finish ⟨codec, destination, .active⟩
      = (.ok false, ⟨codec', destination.append s.produced, .finished⟩) := by
  simp only [finish, step, h, hs]

theorem finish_pending {s : Step}
    (h : Codec.step codec .empty destination.free .finish = (.ok s, codec'))
    (hs : s.completion = .pending) :
    finish ⟨codec, destination, .active⟩
      = (.ok true, ⟨codec', destination.append s.produced, .active⟩) := by
  simp only [finish, step, h, hs]

theorem finish_error {e : Error}
    (h : Codec.step codec .empty destination.free .finish = (.error e, codec')) :
    finish ⟨codec, destination, .active⟩ = (.error e, ⟨codec', destination, .active⟩) := by
  simp only [finish, step, h]

omit [Codec κ] in
theorem drain_active :
    drain ⟨codec, destination, .active⟩
      = (.ok destination.bytes, ⟨codec, destination.rewind, .active⟩) := rfl

omit [Codec κ] in
/-- A session that is not closed gives what it holds. -/
theorem drain_of_ne_closed (codec : κ) (destination : DestinationBuffer) {phase : Phase}
    (h : phase ≠ .closed) :
    drain ⟨codec, destination, phase⟩
      = (.ok destination.bytes, ⟨codec, destination.rewind, phase⟩) := by
  cases phase with
  | active => rfl
  | finished => rfl
  | closed => exact absurd rfl h

omit [Codec κ] in
/-- A new session is active and holds nothing. -/
theorem create_eq {memory : Memory} {destinationLength : Nat} {session : Session κ}
    (h : create memory codec destinationLength = .ok session) :
    session = ⟨codec, ⟨.empty, destinationLength⟩, .active⟩ := by
  unfold create at h
  split at h
  · cases h
  next destination hdest =>
  cases h
  rw [DestinationBuffer.create_eq hdest]

end Session

end Zstandard
