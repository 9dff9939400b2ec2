import Zstandard.Entropy.FseEncoder
import Zstandard.Entropy.Huffman
import Zstandard.Entropy.Shares

/-!
# Choosing a Huffman code

A code is chosen in two steps. A tree is grown by joining the two rarest parts again and again;
its depths are lengths of codewords that fill the code space. Then the lengths are held to a
limit: longer ones are cut to it, and for the code space this takes too much of, other codewords
are made longer, the cheapest first. The code space is counted in codewords of the limit's length.
-/

namespace Zstandard

/-- A tree over bytes that occur some number of times. -/
inductive CodeTree where
  | leaf (symbol count : Nat)
  | node (count : Nat) (left right : CodeTree)

namespace CodeTree

/-- How often the bytes of a tree occur together. -/
def count : CodeTree → Nat
  | leaf _ count => count
  | node count _ _ => count

/-- Takes the rarer one of the first leaf and the first node, the node if they are equal. -/
def takeRarest (leaves nodes : List CodeTree) :
    Option (CodeTree × List CodeTree × List CodeTree) :=
  match leaves, nodes with
  | [], [] => none
  | l :: leaves, [] => some (l, leaves, [])
  | [], n :: nodes => some (n, [], nodes)
  | l :: leaves, n :: nodes =>
    if l.count < n.count then some (l, leaves, n :: nodes) else some (n, l :: leaves, nodes)

/-- Joins the two rarest parts until one is left. Leaves and nodes are in rising order. -/
def join : (fuel : Nat) → (leaves nodes : List CodeTree) → Option CodeTree
  | 0, _, _ => none
  | fuel + 1, leaves, nodes =>
    match takeRarest leaves nodes with
    | none => none
    | some (a, leaves, nodes) =>
      match takeRarest leaves nodes with
      | none => some a
      | some (b, leaves, nodes) =>
        join fuel leaves (nodes ++ [node (a.count + b.count) a b])

/-- The depth of each leaf, by its symbol. -/
def depths : CodeTree → (depth : Nat) → Array Nat → Array Nat
  | leaf symbol _, depth, lengths => lengths.setIfInBounds symbol depth
  | node _ a b, depth, lengths => b.depths (depth + 1) (a.depths (depth + 1) lengths)

end CodeTree

namespace CodeLengths

/-- The place of the last codeword of a length, if there is one. -/
def lastOf? (lengths : Array Nat) (length : Nat) : Option Nat :=
  (List.range lengths.size).foldl (fun r i => if lengths.getD i 0 = length then some i else r) none

/-- The last codeword that is `rank` bits shorter than the limit. -/
def lastOfRank? (limit : Nat) (lengths : Array Nat) (rank : Nat) : Option Nat :=
  if limit ≤ rank then none else lastOf? lengths (limit - rank)

/-- The largest rank from `rank` down for which one codeword is not dearer than two of the next. -/
def cheapestRank (limit : Nat) (counts lengths : Array Nat) : (rank : Nat) → Nat
  | 0 => 1
  | 1 => 1
  | rank + 1 =>
    match lastOfRank? limit lengths (rank + 1), lastOfRank? limit lengths rank with
    | none, _ => cheapestRank limit counts lengths rank
    | some _, none => rank + 1
    | some i, some j =>
      if counts.getD i 0 ≤ 2 * counts.getD j 0 then rank + 1
      else cheapestRank limit counts lengths rank

/-- The first rank from `rank` on that has a codeword. -/
def nextRank? (limit : Nat) (lengths : Array Nat) : (fuel : Nat) → (rank : Nat) → Option Nat
  | 0, _ => none
  | fuel + 1, rank =>
    if (lastOfRank? limit lengths rank).isSome then some rank
    else nextRank? limit lengths fuel (rank + 1)

/-- Makes codewords one bit longer until `debt` is paid, the last of a rank each time; the last
payment may be too much. -/
def lengthen (limit : Nat) (counts : Array Nat) :
    (fuel : Nat) → (debt : Nat) → Array Nat → Array Nat
  | 0, _, lengths => lengths
  | fuel + 1, debt, lengths =>
    if debt = 0 then lengths
    else
      match nextRank? limit lengths limit (cheapestRank limit counts lengths (debt.log2 + 1)) with
      | none => lengths
      | some rank =>
        match lastOfRank? limit lengths rank with
        | none => lengths
        | some i => lengthen limit counts fuel (debt - 2 ^ (rank - 1)) (lengths.modify i (· + 1))

/-- The code space that codewords take, in codewords of the limit's length. -/
def space (limit : Nat) (lengths : Array Nat) : Nat :=
  lengths.foldl (fun sum l => sum + 2 ^ (limit - l)) 0

/-- Makes the first codeword of the limit's length one bit shorter, `n` times. -/
def shorten (limit : Nat) : (n : Nat) → Array Nat → Array Nat
  | 0, lengths => lengths
  | n + 1, lengths =>
    match lengths.findIdx? (· == limit) with
    | none => lengths
    | some i => shorten limit n (lengths.modify i (· - 1))

/-- Lengths held to a limit, for counts in falling order. -/
def hold (limit : Nat) (counts lengths : Array Nat) : Array Nat :=
  let lengths := lengths.map (min limit)
  let lengths :=
    lengthen limit counts (2 ^ limit) (space limit lengths - 2 ^ limit) lengths
  shorten limit (2 ^ limit - space limit lengths) lengths

/-- The length of each byte's codeword, 0 for those that do not occur. -/
def choose (limit : Nat) (counts : Array Nat) : Array Nat :=
  let symbols := (List.range counts.size).filter fun s => counts.getD s 0 != 0
  let symbols := symbols.mergeSort fun a b => decide (counts.getD b 0 ≤ counts.getD a 0)
  let leaves := symbols.reverse.map fun s => CodeTree.leaf s (counts.getD s 0)
  let zeros := Array.replicate counts.size 0
  match CodeTree.join (symbols.length + 1) leaves [] with
  | none => zeros
  | some tree =>
    let depths := tree.depths 0 zeros
    let lengths := symbols.toArray.map fun s => depths.getD s 0
    let lengths :=
      if lengths.any (limit < ·) then
        hold limit (symbols.toArray.map fun s => counts.getD s 0) lengths
      else lengths
    (symbols.zip lengths.toList).foldl (fun out p => out.setIfInBounds p.1 p.2) zeros

end CodeLengths

namespace Huffman

/-- The most bits of a codeword that is chosen here. -/
def chosenLog : Nat := 11

/-- The weights of the code for some counts, up to the last byte that occurs: 1 for the longest
codewords; and the number of bits of those. -/
def weightsFor (limit : Nat) (counts : Array Nat) : Array Nat × Nat :=
  let lengths := CodeLengths.choose limit counts
  let log := lengths.foldl max 0
  let weights := lengths.map fun l => if l = 0 then 0 else log + 1 - l
  (weights.take ((List.range weights.size).foldl
    (fun n i => if weights.getD i 0 = 0 then n else i + 1) 0), log)

/-! ## Writing weights -/

/-- The largest logarithm of the states for weights. -/
def weightLog : Nat := 6

/-- Symbols from the last to the first, the two states taking turns; and the states they end in. -/
def pushAlternating (e : FseEncoder) :
    List Nat → (state other : Nat) → BitWriter → Option BitWriter
  | [], state, other, w => some (e.pushState other (e.pushState state w))
  | s :: rest, state, other, w =>
    match e.lead? s state w with
    | none => none
    | some (state, w) => pushAlternating e rest other state w

/-- The stream of weights. -/
def weightStream? (e : FseEncoder) (weights : List Nat) : Option ByteArray :=
  match weights.reverse with
  | last :: before :: rest => do
    let state ← e.last? last
    let other ← e.last? before
    let w ← pushAlternating e rest state other .empty
    return w.close
  | _ => none

/-- Weights as a distribution and a stream, if they differ and some of them repeat. -/
def compressWeights? (weights : List Nat) : Option ByteArray :=
  let counts := Distribution.histogram weights
  let total := weights.length
  if total ≤ 1 ∨ counts.contains total ∨ counts.all (· ≤ 1) then none
  else
    let d := Distribution.ofCounts
      (Distribution.logFor weightLog total (counts.size - 1) 2) 1 counts
    match weightStream? (d.table.encoder counts.size) weights with
    | none => none
    | some stream => some (d.write ++ stream)

/-- Weights of four bits each, the first one high. -/
def pushWeights : List Nat → ByteArray → ByteArray
  | [], out => out
  | [a], out => out.push (a * 16).toUInt8
  | a :: b :: rest, out => pushWeights rest (out.push (a * 16 + b).toUInt8)

/-- The bytes that weights are read from; the last weight is not written. There are none if the
weights fit neither form. -/
def describe? (weights : Array Nat) : Option ByteArray :=
  let written := weights.pop.toList
  let plain :=
    if 128 < written.length then none
    else some (pushWeights written ⟨#[(127 + written.length).toUInt8]⟩)
  match compressWeights? written with
  | none => plain
  | some body =>
    if 1 < body.size ∧ body.size < written.length / 2 then
      some (⟨#[body.size.toUInt8]⟩ ++ body)
    else plain

end Huffman

end Zstandard
