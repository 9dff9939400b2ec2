import Zstandard.Endpoint
import Zstandard.Session

/-!
# Collectors: sessions whose output is gathered

A collector is a session with an array for its output. Each operation goes on, draining the
session as often as it has to, until the session has taken or given all of it.
-/

namespace Zstandard

/-- A session, and the output drained from it so far. -/
structure Collector (κ : Type) where
  session : Session κ
  output : ByteArray

namespace Collector

variable {κ : Type} [Codec κ]

/-- Work on a collector. -/
abbrev Work (κ : Type) := EStateM (Halt Error) (Collector κ)

/-- An operation of the session. -/
def onSession {α : Type} (operation : Session κ → Except Error α × Session κ) : Work κ α :=
  fun c =>
    match c with
    | ⟨session, output⟩ =>
      match operation session with
      | (.ok a, session) => .ok a ⟨session, output⟩
      | (.error e, session) => .error (.failed e) ⟨session, output⟩

/-- Moves the session's output behind the output so far. -/
def drain : Work κ Unit := do
  let bytes ← onSession Session.drain
  fun c =>
    match c with
    | ⟨session, output⟩ => .ok () ⟨session, output ++ bytes⟩

/-- Pushes all of `input` into a compressing session, draining it when it is full. -/
def pushAll : (turns : Nat) → (input : Slice) → Work κ Unit
  | 0, _ => throw .outOfTurns
  | turns + 1, input => do
    if input.isEmpty then return ()
    else
      let p ← onSession (Session.push input)
      if p.full then drain
      pushAll turns (input.drop p.consumed)

/-- Repeats a request to the session, which tells whether more is to come, draining after each. -/
def drainWhile (request : Session κ → Except Error Bool × Session κ) : (turns : Nat) → Work κ Unit
  | 0 => throw .outOfTurns
  | turns + 1 => do
    let more ← onSession request
    drain
    if more then drainWhile request turns else return ()

/-- Gets everything pushed so far out of a compressing session. -/
def flush (turns : Nat) : Work κ Unit := drainWhile Session.flush turns

/-- Ends the frame of a compressing session. -/
def finish (turns : Nat) : Work κ Unit := drainWhile Session.finish turns

/-- Pushes all of `input` into a decompressing session, draining it after each push, until it
leaves room. -/
def pushThrough : (turns : Nat) → (input : Slice) → Work κ Unit
  | 0, _ => throw .outOfTurns
  | turns + 1, input => do
    let p ← onSession (Session.push input)
    drain
    let rest := input.drop p.consumed
    if rest.isEmpty && !p.full then return () else pushThrough turns rest

/-- Whether the input may end here. -/
def endOfInput : Work κ Unit := onSession fun s => (s.endOfInput, s)

/-- The output of some work on a new collector. -/
def run (work : Work κ Unit) (session : Session κ) : Except (Halt Error) ByteArray :=
  match work ⟨session, .empty⟩ with
  | .ok () c => .ok c.output
  | .error h _ => .error h

end Collector

end Zstandard
