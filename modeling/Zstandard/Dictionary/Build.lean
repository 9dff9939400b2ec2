import Zstandard.Block.Literals.Encode
import Zstandard.Buffer.Memory
import Zstandard.Dictionary.Basic
import Zstandard.Dictionary.Samples
import Zstandard.Entropy.CodeLengths
import Zstandard.Report.Basic
import Zstandard.XXH64

/-!
# Building structured dictionaries

A structured dictionary is built around some content, which is given (`finalize`) or taken from
samples (`train`). The samples also give the Huffman code for its literals. Its size is limited:
content that does not fit is cut at its end, and content that is too short for the repeated
offsets a frame begins with gets zeros in front.
-/

namespace Zstandard

/-- What a training is asked for. -/
structure TrainOptions where
  /-- The largest size; 0 asks for the default. -/
  capacity : UInt64 := 0
  deriving DecidableEq

/-- What a finalization is asked for. -/
structure FinalizeOptions where
  /-- The largest size; 0 asks for the default. -/
  maxSize : UInt64 := 0
  /-- The level the dictionary is meant for; 0 asks for the default. -/
  compressionLevel : Int32 := 0
  /-- 0 asks for an identifier that is derived from the content. -/
  dictionaryId : UInt32 := 0
  deriving DecidableEq

namespace Dictionary

/-- The least room a structured dictionary is built in. -/
def leastRoom : Nat := 256

/-- The least content: the largest offset a frame begins with reaches its first byte. -/
def leastContent : Nat := RecentOffsets.initial.third

/-- The least number of samples to learn from, and the least size of all samples together. -/
def leastSamples : Nat × Nat := (5, 8)

/-- An identifier derived from content, outside the ranges that are set aside. -/
def identifierFor (content : ByteArray) : Nat :=
  (XXH64.ofBytes content).toNat % (2 ^ 31 - 32768) + 32768

/-- How often each byte occurs in samples, as if it occurred once more: any byte may come up. -/
def byteCounts (samples : Samples) : Array Nat :=
  Huffman.countBytes samples.bytes (Array.replicate 256 1)

/-- Counts of which the code can always be written, for bytes that are all as frequent. -/
def almostFlat : Array Nat := #[4] ++ Array.replicate 253 2 ++ #[1, 1]

/-- The description of the Huffman code for some counts. -/
def literalCode (counts : Array Nat) : ByteArray :=
  let describe (counts : Array Nat) : Option ByteArray :=
    Huffman.describe? (Huffman.weightsFor Huffman.chosenLog counts).1
  match describe counts with
  | some description => description
  | none => (describe almostFlat).getD .empty

/-- Everything in front of the content of a structured dictionary. -/
def header (id : Nat) (counts : Array Nat) : ByteArray :=
  let offsets := RecentOffsets.initial
  let front := pushLittleEndian (pushLittleEndian .empty magicNumber 4) id 4
  let tables := literalCode counts ++ (CodeKind.standard .offset).write
    ++ (CodeKind.standard .matchLength).write ++ (CodeKind.standard .literalLength).write
  [offsets.first, offsets.second, offsets.third].foldl (pushLittleEndian · · 4) (front ++ tables)

/-- Content behind a header in `room` bytes. -/
def assemble (header content : ByteArray) (room : Nat) : Except ErrorCode ByteArray :=
  let content := content.extract 0 (room - header.size)
  let padding := leastContent - content.size
  if room < header.size + padding + content.size then .error .destinationTooSmall
  else .ok (header ++ ⟨Array.replicate padding 0⟩ ++ content)

/-- The bytes of a dictionary with this content, in `room` bytes; an `id` of 0 asks for one. -/
def format (content : ByteArray) (samples : Samples) (room id : Nat) :
    Except ErrorCode ByteArray :=
  if room < content.size ∨ room < leastRoom then .error .destinationTooSmall
  else
    let id := if id = 0 then identifierFor content else id
    assemble (header id (byteCounts samples)) content room

/-- The end of the samples, as much as fits into a dictionary of `room` bytes. -/
def pick (samples : Samples) (room : Nat) : ByteArray :=
  let taken := (header 0 (byteCounts samples)).size
  let size := samples.bytes.size
  samples.bytes.extract (size - (room - taken)) size

/-- The bytes of a dictionary learnt from samples, of which a quarter is kept for trying it out. -/
def learn (samples : Samples) (room : Nat) : Except ErrorCode ByteArray :=
  if samples.count = 0 then .error .sourceSizeWrong
  else if room < leastRoom then .error .destinationTooSmall
  else if 3 * samples.count / 4 < leastSamples.1 ∨ samples.bytes.size < leastSamples.2 then
    .error .sourceSizeWrong
  else format (pick samples room) samples room 0

/-- `room`, or the default in place of 0. -/
def roomOr (room : UInt64) : Nat := if room = 0 then defaultCapacity else room.toNat

/-- The dictionary that some bytes were made for, with a record of it. -/
def record (made : Except ErrorCode ByteArray) (toRecord : Nat → Record) (log : Log) :
    Except Error Dictionary × Log :=
  match made with
  | .error code => (.error code.toError, log)
  | .ok bytes => (ofBytes? bytes, log.push (toRecord bytes.size))

/-- Learns a dictionary from samples. -/
def train (memory : Memory) (o : TrainOptions) (samples : List ByteArray) (log : Log) :
    Except Error Dictionary × Log :=
  match Samples.ofList? samples with
  | .error e => (.error e, log)
  | .ok samples =>
    let room := roomOr o.capacity
    if memory.grants room then
      record (learn samples room) (.trained · samples.count samples.bytes.size) log
    else (.error .allocateFailed, log)

/-- Builds a dictionary around `content`. -/
def finalize (memory : Memory) (o : FinalizeOptions) (content : ByteArray)
    (samples : List ByteArray) (log : Log) : Except Error Dictionary × Log :=
  if content.isEmpty then (.error (.validateFailed "content should not be empty"), log)
  else
    match Samples.ofList? samples with
    | .error e => (.error e, log)
    | .ok samples =>
      let level := o.compressionLevel
      if level ≠ 0 ∧ !Limits.levels.contains level.toInt then
        (.error (.validateFailed ("invalid " ++ Parameter.phrase .compressionLevel)), log)
      else
        let room := roomOr o.maxSize
        if memory.grants room then
          record (format content samples room o.dictionaryId.toNat) (.finalized · content.size) log
        else (.error .allocateFailed, log)

end Dictionary

end Zstandard
