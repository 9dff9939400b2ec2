import Zstandard.Error.Basic

/-!
# Match-finding strategies

The nine strategies, from the fastest to the strongest. A strategy is written as its name, and a
name is read back by looking through `all`.
-/

namespace Zstandard

/-- How the encoder looks for matches. -/
inductive Strategy where
  | fast | dfast | greedy | lazy | lazy2 | btlazy2 | btopt | btultra | btultra2
  deriving Repr, DecidableEq, Inhabited

namespace Strategy

/-- Every strategy, from the fastest to the strongest. -/
def all : List Strategy :=
  [.fast, .dfast, .greedy, .lazy, .lazy2, .btlazy2, .btopt, .btultra, .btultra2]

/-- The name of a strategy. -/
def name : Strategy → String
  | .fast => "fast"
  | .dfast => "dfast"
  | .greedy => "greedy"
  | .lazy => "lazy"
  | .lazy2 => "lazy2"
  | .btlazy2 => "btlazy2"
  | .btopt => "btopt"
  | .btultra => "btultra"
  | .btultra2 => "btultra2"

/-- The number the format library knows a strategy by, counted from 1. -/
def number : Strategy → Nat
  | .fast => 1
  | .dfast => 2
  | .greedy => 3
  | .lazy => 4
  | .lazy2 => 5
  | .btlazy2 => 6
  | .btopt => 7
  | .btultra => 8
  | .btultra2 => 9

/-- The strategy of a name. -/
def ofName? (s : String) : Except Error Strategy :=
  match all.find? (fun strategy => strategy.name == s) with
  | some strategy => .ok strategy
  | none => .error (.validateFailed "invalid strategy")

/-- Names are read back. -/
theorem ofName?_name (s : Strategy) : ofName? s.name = .ok s := by
  cases s <;> rfl

end Strategy

end Zstandard
