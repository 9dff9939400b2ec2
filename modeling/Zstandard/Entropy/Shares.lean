import Zstandard.Entropy.Fse

/-!
# Sharing out states

A distribution is made from how often each symbol occurs. Every symbol that occurs gets at least
one state, and all `2 ^ log` states are given away:

* a symbol gets its proportion, rounded down, or up if the rest is large for so small a share;
  what is then missing or too much goes to the largest share (`byProportion`);
* if that would halve the largest share, the rare symbols get one state each, and the others
  divide what is left, each from where the one before it ended (`byRemainder`).
-/

namespace Zstandard

namespace Distribution

/-- How often each number up to the largest occurs. -/
def histogram (numbers : List Nat) : Array Nat :=
  let size := numbers.foldl max 0 + 1
  numbers.foldl (fun counts n => counts.modify n (· + 1)) (Array.replicate size 0)

/-- The sum of some counts. -/
def sum (counts : Array Nat) : Nat := counts.foldl (· + ·) 0

/-- The place of the first largest number. -/
def largest (counts : Array Nat) : Nat :=
  let top := counts.foldl max 0
  (counts.findIdx? (· == top)).getD 0

/-- How large the rest of a proportion below each share has to be to be rounded up, in parts of
`2 ^ 20`. -/
def roundingRests : Array Nat := #[0, 473195, 504333, 520860, 550000, 700000, 750000, 830000]

/-- The proportion of `count` in `total`, in parts of `2 ^ log`, rounded. -/
def proportion (log total count : Nat) : Nat :=
  let part := 2 ^ (62 - log)
  let scaled := count * (2 ^ 62 / total)
  let share := scaled / part
  if share < 8 ∧ part / 2 ^ 20 * roundingRests.getD share 0 < scaled - share * part then share + 1
  else share

/-- Shares by proportion, with `rare` for a symbol that is not worth more than one state. None if
the largest share does not bear what is missing. -/
def byProportion (log : Nat) (rare : Int) (counts : Array Nat) : Option (Array Int) :=
  let total := sum counts
  let isRare (c : Nat) : Bool := decide (c ≤ total / 2 ^ log)
  let proportions := counts.map fun c => if isRare c then 0 else proportion log total c
  let shares : Array Int := counts.map fun c =>
    if c = 0 then 0 else if isRare c then rare else proportion log total c
  let given : Nat := shares.foldl (fun sum s => sum + s.natAbs) 0
  let missing : Int := (2 ^ log : Nat) - (given : Int)
  let i := largest proportions
  let top := shares.getD i 0
  if -missing < top / 2 then some (shares.setIfInBounds i (top + missing)) else none

/-- The states that symbols have been given so far; none for those that have not. -/
abbrev Given := Array (Option Int)

namespace Given

/-- How many symbols that occur have been given their states, one to each. -/
def settled (g : Given) : Nat := (g.filter fun s => s.any (· != 0)).size

/-- How often the symbols that wait occur together. -/
def waiting (g : Given) (counts : Array Nat) : Nat :=
  (g.zip counts).foldl (fun sum p => if p.1.isNone then sum + p.2 else sum) 0

/-- One state for each of those that wait and occur at most `limit` times. -/
def settleUpTo (g : Given) (counts : Array Nat) (limit : Nat) : Given :=
  (g.zip counts).map fun p => if p.1.isNone && decide (p.2 ≤ limit) then some 1 else p.1

end Given

/-- Divides `left` states among the symbols that wait, in order, each from where the one before it
ended; positions are in parts of `scale`. -/
def divide (scale rate : Nat) : List (Option Int × Nat) → (position : Nat) → List Int
  | [], _ => []
  | (some s, _) :: rest, position => s :: divide scale rate rest position
  | (none, c) :: rest, position =>
    let stop := position + c * rate
    ((stop / scale - position / scale : Nat) : Int) :: divide scale rate rest stop

/-- Gives `left` states away one by one, in turn, to the symbols that have some. -/
def dealOut : (fuel : Nat) → (left i : Nat) → Array Int → Array Int
  | 0, _, _, shares => shares
  | fuel + 1, left, i, shares =>
    if left = 0 then shares
    else
      let i := if i < shares.size then i else 0
      if 0 < shares.getD i 0 then dealOut fuel (left - 1) (i + 1) (shares.modify i (· + 1))
      else dealOut fuel left (i + 1) shares

/-- Shares where the rare symbols have one state each and the others divide what is left. -/
def byRemainder (log : Nat) (rare : Int) (counts : Array Nat) : Array Int :=
  let size := 2 ^ log
  let total := sum counts
  let one := total * 3 / (2 * size)
  let given : Given := counts.map fun c =>
    if c = 0 then some 0 else if c ≤ total / size then some rare
    else if c ≤ one then some 1 else none
  let left := size - given.settled
  let given :=
    if one < given.waiting counts / left then
      given.settleUpTo counts (given.waiting counts * 3 / (left * 2))
    else given
  let left := size - given.settled
  let waiting := given.waiting counts
  let shares := given.map (·.getD 0)
  if given.settled = counts.size then shares.modify (largest counts) (· + (left : Nat))
  else if waiting = 0 then dealOut (size * (counts.size + 1)) left 0 shares
  else
    let scale := 2 ^ (62 - log)
    let middle := scale / 2 - 1
    let rate := (scale * left + middle) / waiting
    (divide scale rate (given.zip counts).toList middle).toArray

/-- The distribution of `2 ^ log` states for symbols that occur this often. `rare` is the share of
one that is not worth more than a state: 1 or -1. -/
def ofCounts (log : Nat) (rare : Int) (counts : Array Nat) : Distribution :=
  match byProportion log rare counts with
  | some shares => ⟨log, shares⟩
  | none => ⟨log, byRemainder log rare counts⟩

/-- The logarithm of the number of states for `total` symbols, the largest of them `symbol`: at
most `most`, and no more than they are worth, which `margin` makes less. -/
def logFor (most total symbol margin : Nat) : Nat :=
  let worth := (total - 1).log2
  let log := if margin ≤ worth then min most (worth - margin) else most
  let least := min (total.log2 + 1) (symbol.log2 + 2)
  max 5 (min 12 (max least log))

end Distribution

end Zstandard
