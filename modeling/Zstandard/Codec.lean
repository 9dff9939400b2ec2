import Zstandard.Error.Basic
import Zstandard.Slice

/-!
# Codecs: one step at a time

A codec is a machine that is given some input and some room and answers how much input it used
and what it put into the room. That is all the drivers know about it: a step may fail, use none
of the input, or produce nothing, and need not ever be done. Two bounds are part of the notion
of a codec, so every driver may rely on them: a step uses no more than its input
(`Codec.consumed_le`) and produces no more than its room (`Codec.produced_le`).

`Framed` adds to a codec the question whether its input so far ends where a frame ends.
-/

namespace Zstandard

/-- What a codec is to do beyond taking input. -/
inductive Directive where
  /-- Take input, put out what is ready. -/
  | feed
  /-- Put out everything taken so far. -/
  | flush
  /-- Put out everything and close the frame. -/
  | finish
  deriving Repr, DecidableEq, Inhabited

/-- Whether anything is still to come. -/
inductive Completion where
  | pending
  | done
  deriving Repr, DecidableEq, Inhabited

/-- What one step of a codec did. -/
structure Step where
  consumed : Nat
  produced : ByteArray
  completion : Completion
  deriving DecidableEq

namespace Step

/-- Whether the step used or produced anything. -/
def madeProgress (s : Step) : Bool := s.consumed != 0 || s.produced.size != 0

/-- Whether the step keeps to an input of `available` bytes and to `room`. -/
def fits (s : Step) (available room : Nat) : Bool :=
  decide (s.consumed ≤ available ∧ s.produced.size ≤ room)

end Step

/-- A machine that turns input into output step by step. -/
class Codec (κ : Type) where
  /-- One step over `input`, into `room` bytes. -/
  step : κ → (input : Slice) → (room : Nat) → Directive → Except Error Step × κ
  /-- Whether the input may end here. -/
  endOfInput : κ → Except Error Unit
  /-- A step uses no more than its input. -/
  consumed_le : ∀ {codec codec' : κ} {input : Slice} {room : Nat} {directive : Directive}
    {s : Step}, step codec input room directive = (.ok s, codec') → s.consumed ≤ input.size
  /-- A step produces no more than its room. -/
  produced_le : ∀ {codec codec' : κ} {input : Slice} {room : Nat} {directive : Directive}
    {s : Step}, step codec input room directive = (.ok s, codec') → s.produced.size ≤ room

/-- A step function held to the two bounds: a step outside them becomes a failure. -/
def boundedStep {κ : Type} (step : κ → Slice → Nat → Directive → Except Error Step × κ)
    (codec : κ) (input : Slice) (room : Nat) (directive : Directive) : Except Error Step × κ :=
  match step codec input room directive with
  | (.ok s, codec) =>
    if s.fits input.size room then (.ok s, codec)
    else (.error (.unexpected "step out of bounds"), codec)
  | (.error e, codec) => (.error e, codec)

theorem fits_of_boundedStep {κ : Type}
    {step : κ → Slice → Nat → Directive → Except Error Step × κ} {codec codec' : κ}
    {input : Slice} {room : Nat} {directive : Directive} {s : Step}
    (h : boundedStep step codec input room directive = (.ok s, codec')) :
    s.consumed ≤ input.size ∧ s.produced.size ≤ room := by
  unfold boundedStep at h
  split at h
  · split at h
    · next hfits =>
      simp only [Prod.mk.injEq, Except.ok.injEq] at h
      rw [← h.1]
      simpa [Step.fits] using hfits
    · simp at h
  · simp at h

/-- A codec together with whether a frame has been started and not completed. -/
structure Framed (κ : Type) where
  codec : κ
  inFrame : Bool := false

namespace Framed

variable {κ : Type} [Codec κ]

/-- A step of the codec; being done closes the frame, using input without being done opens one. -/
def step (f : Framed κ) (input : Slice) (room : Nat) (directive : Directive) :
    Except Error Step × Framed κ :=
  match Codec.step f.codec input room directive with
  | (.error e, codec) => (.error e, { f with codec })
  | (.ok s, codec) =>
    match s.completion with
    | .done => (.ok s, { codec, inFrame := false })
    | .pending => (.ok s, { codec, inFrame := f.inFrame || s.consumed != 0 })

/-- A step that succeeds is a step of the codec. -/
theorem step_ok {f f' : Framed κ} {input : Slice} {room : Nat} {directive : Directive} {s : Step}
    (h : f.step input room directive = (.ok s, f')) :
    Codec.step f.codec input room directive = (.ok s, f'.codec) := by
  unfold step at h
  split at h
  · simp at h
  · next heq =>
    split at h <;> (cases h; exact heq)

/-- The input may end where no frame is open. -/
def endOfInput (f : Framed κ) : Except Error Unit :=
  if f.inFrame then .error .corruptedSource else .ok ()

instance : Codec (Framed κ) where
  step := step
  endOfInput := endOfInput
  consumed_le h := Codec.consumed_le (step_ok h)
  produced_le h := Codec.produced_le (step_ok h)

end Framed

end Zstandard
