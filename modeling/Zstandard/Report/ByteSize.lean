import Zstandard.Instances

/-!
# Sizes in words

A size below 1000 is written as it is. A larger one is written in the largest fitting unit with
one decimal. Units count thousands, but the next one is taken only a little above each power of
1024, so `1000.0 KB` and `1048.6 KB` occur.

The decimal is that of the quotient as a 53-bit binary number, since that is how the quotient
is held: `roundDiv` first rounds to 53 bits and then to tenths, halves going to the even
neighbour both times.
-/

namespace Zstandard.ByteSize

/-- `n / d` to the nearest integer; a half goes to the even neighbour. -/
def roundDiv (n d : Nat) : Nat :=
  let q := n / d
  let r := n % d
  if 2 * r < d then q
  else if d < 2 * r then q + 1
  else q + q % 2

/-- The least sizes for which the second and later units are taken. -/
def thresholds : List Nat :=
  [1048577, 1073741826, 1099511629538, 1125899909097501, 1152921507377641828]

/-- How many thousands the unit of a size stands for, as an exponent. -/
def exponent (n : Nat) : Nat := 1 + (thresholds.filter (· ≤ n)).length

/-- The letters of the units. -/
def letter : Nat → String
  | 1 => "K"
  | 2 => "M"
  | 3 => "G"
  | 4 => "T"
  | 5 => "P"
  | _ => "E"

/-- The tenths of `n / d`, taken from the quotient rounded to 53 significant bits. -/
def tenths (n d : Nat) : Nat :=
  let bits := (n / d).log2 + 1
  let shift := 53 - bits
  roundDiv (10 * roundDiv (n * 2 ^ shift) d) (2 ^ shift)

/-- A size in words. -/
def render (n : Nat) : String :=
  if n < 1000 then toString n ++ " B"
  else
    let e := exponent n
    let t := tenths n (1000 ^ e)
    toString (t / 10) ++ "." ++ toString (t % 10) ++ " " ++ letter e ++ "B"

end Zstandard.ByteSize
