import Zstandard.Block.Literals
import Zstandard.Entropy.CodeLengths

/-!
# Encoding literals

Literals are stored, or written as one byte repeated, or Huffman coded: with the code that the
frame has last used, or with a code made for them. How often each byte occurs decides which form
is taken (`Form.choose`). A code that a dictionary brings, and that has a codeword for every byte,
is taken without counting if there are few literals. A coded form that does not save enough gives
way to the stored one.
-/

namespace Zstandard

/-- A Huffman code that a block may go on with. -/
structure LiteralCode where
  codewords : Array Codeword
  /-- Whether it is from the dictionary and has a codeword for every byte. -/
  isUniversal : Bool
  deriving Inhabited

namespace LiteralCode

/-- The code that a frame begins with, if its dictionary brings one. -/
def ofInheritance (i : Inheritance) : Option LiteralCode :=
  i.huffman.map fun table =>
    let codewords := table.codewords
    ⟨codewords, codewords.all (·.length != 0)⟩

/-- Whether every byte that occurs has a codeword. -/
def covers (c : LiteralCode) (counts : Array Nat) : Bool :=
  (counts.zip c.codewords).all fun p => p.1 == 0 || p.2.length != 0

end LiteralCode

namespace Huffman

/-- How often each byte occurs, on top of `counts`. -/
def countBytes (bytes : ByteArray) (counts : Array Nat) : Array Nat :=
  bytes.foldl (fun counts b => counts.modify b.toNat (· + 1)) counts

/-- How many whole bytes the codewords take. -/
def codedSize (codewords : Array Codeword) (counts : Array Nat) : Nat :=
  (counts.zip codewords).foldl (fun sum p => sum + p.1 * p.2.length) 0 / 8

/-- The codewords of `n` bytes from `start` on, from the last to the first. -/
def pushCodewords (codewords : Array Codeword) (bytes : ByteArray) (start : Nat) :
    (n : Nat) → BitWriter → BitWriter
  | 0, w => w
  | n + 1, w =>
    let c := codewords.getD (byteAt bytes (start + n)).toNat default
    pushCodewords codewords bytes start n (w.push c.value c.length)

/-- The stream of `n` bytes from `start` on. -/
def stream (codewords : Array Codeword) (bytes : ByteArray) (start n : Nat) : ByteArray :=
  (pushCodewords codewords bytes start n .empty).close

/-- Four streams, of which three have a quarter of the bytes each, rounded up; the sizes of those
three stand in front. -/
def fourStreams (codewords : Array Codeword) (bytes : ByteArray) : ByteArray :=
  let part := (bytes.size + 3) / 4
  let first := stream codewords bytes 0 part
  let second := stream codewords bytes part part
  let third := stream codewords bytes (2 * part) part
  let fourth := stream codewords bytes (3 * part) (bytes.size - 3 * part)
  let sizes := [first, second, third].foldl (fun out s => pushLittleEndian out s.size 2) .empty
  sizes ++ first ++ second ++ third ++ fourth

end Huffman

/-- How much smaller the coded form of `n` bytes has to be. -/
def Block.gain (n : Nat) : Nat := n / 64 + 2

namespace Literals

/-! ## Choosing a form -/

/-- A form of literals. -/
inductive Form where
  | stored
  | repeated
  /-- Coded with the code before. -/
  | again (code : LiteralCode)
  /-- Coded with a code of their own, which is described in front. -/
  | coded (description : ByteArray) (codewords : Array Codeword)

/-- Up to so many literals, a code that is there is not compared with a new one. -/
def fewLiterals : Nat := 1024

/-- A new code is not worth describing unless there are more literals than this and the bytes of
its description together. -/
def leastBody : Nat := 12

/-- The form with a new code, or the code before if that does as well. -/
def Form.chooseCode (code : Option LiteralCode) (counts : Array Nat) (n : Nat) : Form :=
  let symbol := (List.range counts.size).foldl (fun r s => if counts.getD s 0 = 0 then r else s) 0
  let (weights, log) :=
    Huffman.weightsFor (Distribution.logFor Huffman.chosenLog n symbol 1) counts
  match Huffman.describe? weights with
  | none => .stored
  | some description =>
    let codewords := (Huffman.table weights log false).codewords
    let size := description.size + Huffman.codedSize codewords counts
    match code with
    | some c =>
      if Huffman.codedSize c.codewords counts ≤ size ∨ n ≤ description.size + leastBody then
        .again c
      else .coded description codewords
    | none =>
      if n ≤ description.size + leastBody then .stored else .coded description codewords

/-- The form for bytes that occur as often as `counts` say. -/
def Form.chooseByCounts (code : Option LiteralCode) (counts : Array Nat) (n : Nat) : Form :=
  let most := counts.foldl max 0
  if most = n then .repeated
  else if most ≤ n / 128 + 4 then .stored
  else
    match code.filter (·.covers counts) with
    | some c => if n ≤ fewLiterals then .again c else chooseCode (some c) counts n
    | none => chooseCode none counts n

/-- The form for some literals behind a block with the given code. -/
def Form.choose (code : Option LiteralCode) (literals : ByteArray) : Form :=
  let n := literals.size
  let byCounts : Form :=
    chooseByCounts code (Huffman.countBytes literals (Array.replicate 256 0)) n
  match code with
  | some c =>
    if c.isUniversal then
      if n < 6 then .stored else if n ≤ fewLiterals then .again c else byCounts
    else if n < 64 then .stored else byCounts
  | none => if n < 64 then .stored else byCounts

/-! ## Writing -/

/-- The header of a section that is not coded: of kind 0 if it is stored, 1 if repeated. -/
def writePlainHeader (kind count : Nat) : ByteArray :=
  if count < 32 then pushLittleEndian .empty (kind + count * 8) 1
  else if count < 4096 then pushLittleEndian .empty (kind + 4 + count * 16) 2
  else pushLittleEndian .empty (kind + 12 + count * 16) 3

/-- The header of a coded section: of kind 2 if it brings its code, 3 if not. -/
def writeCodedHeader (kind : Nat) (single : Bool) (count codedSize : Nat) : ByteArray :=
  if count < 1024 then
    pushLittleEndian .empty
      (kind + (if single then 0 else 4) + count * 16 + codedSize * 2 ^ 14) 3
  else if count < 16384 then
    pushLittleEndian .empty (kind + 8 + count * 16 + codedSize * 2 ^ 18) 4
  else pushLittleEndian .empty (kind + 12 + count * 16 + codedSize * 2 ^ 22) 5

/-- Stored literals. -/
def stored (literals : ByteArray) : ByteArray := writePlainHeader 0 literals.size ++ literals

/-- Coded literals, if that saves enough. -/
def coded? (kind : Nat) (description : ByteArray) (codewords : Array Codeword) (single : Bool)
    (literals : ByteArray) : Option ByteArray :=
  let n := literals.size
  let body := description ++
    (if single then Huffman.stream codewords literals 0 n
    else Huffman.fourStreams codewords literals)
  if n ≤ body.size + Block.gain n then none
  else some (writeCodedHeader kind single n body.size ++ body)

/-- Writes literals behind a block with the given code. Gives the code for the next block. -/
def write (code : Option LiteralCode) (literals : ByteArray) : ByteArray × Option LiteralCode :=
  let n := literals.size
  match Form.choose code literals with
  | .stored => (stored literals, code)
  | .repeated => ((writePlainHeader 1 n).push (byteAt literals 0), code)
  | .again c =>
    let single := decide (n < 256) || (c.isUniversal && decide (n < 1024))
    ((coded? 3 .empty c.codewords single literals).getD (stored literals), code)
  | .coded description codewords =>
    match coded? 2 description codewords (decide (n < 256)) literals with
    | none => (stored literals, code)
    | some bytes => (bytes, some ⟨codewords, false⟩)

end Literals

end Zstandard
