import Zstandard.Entropy.Fse

/-!
# Encoding with finite states

Encoding goes backwards: from the state that has to come next to the one before it. The states of
a symbol are numbered from its share `c` on, in the order of the table. The state before `next` is
the one whose number is what is left of `2 ^ log + next` when its low bits are cut off, as many as
it takes for the number to lie between `c` and `2 * c`; those bits are what a reader needs to come
back to `next`.
-/

namespace Zstandard

/-- For each symbol its states, in the order of the table. -/
structure FseEncoder where
  log : Nat
  states : Array (Array Nat)

namespace FseTable

/-- Puts the states from `i` on behind those of their symbols. -/
def collectStates : List FseCell → (i : Nat) → Array (Array Nat) → Array (Array Nat)
  | [], _, states => states
  | c :: rest, i, states => collectStates rest (i + 1) (states.modify c.symbol (·.push i))

/-- The encoder for a table over `symbols` symbols. -/
def encoder (t : FseTable) (symbols : Nat) : FseEncoder :=
  ⟨t.log, collectStates t.cells.toList 0 (Array.replicate symbols #[])⟩

end FseTable

namespace FseEncoder

/-- The state a stream may end in with this symbol. -/
def last? (e : FseEncoder) (symbol : Nat) : Option Nat := (e.states.getD symbol #[])[0]?

/-- The state of a symbol that comes before `next`, with the bits that lead from it to `next`
behind those of `w`. -/
def lead? (e : FseEncoder) (symbol next : Nat) (w : BitWriter) : Option (Nat × BitWriter) :=
  let states := e.states.getD symbol #[]
  let whole := 2 ^ e.log + next
  let bits := e.log - states.size.log2
  let bits := if whole >>> bits < states.size then bits - 1 else bits
  match states[(whole >>> bits) - states.size]? with
  | none => none
  | some state => some (state, w.push whole bits)

/-- Puts a state behind the bits of `w`, for a reader to begin with. -/
def pushState (e : FseEncoder) (state : Nat) (w : BitWriter) : BitWriter := w.push state e.log

end FseEncoder

end Zstandard
