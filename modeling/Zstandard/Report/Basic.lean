import Zstandard.Options.Parameter
import Zstandard.Report.ByteSize

/-!
# Reports

What the library tells about its work besides its results. A record is one fact, with the
numbers it is about; its text and its level are functions of it. A log is a sequence of records,
the oldest first.
-/

namespace Zstandard

/-- The direction of a piece of work. -/
inductive Direction where
  | compress
  | decompress
  deriving Repr, DecidableEq, Inhabited

/-- The verb for a direction. -/
def Direction.verb : Direction → String
  | .compress => "compress"
  | .decompress => "decompress"

/-- How much detail a record is. -/
inductive Level where
  | debug
  | trace
  deriving Repr, DecidableEq, Inhabited

/-- The name of a level. -/
def Level.name : Level → String
  | .debug => "DEBUG"
  | .trace => "TRACE"

/-- One fact about work done. -/
inductive Record where
  | compressorParameter (parameter : Parameter) (value : Int32)
  | windowLogMax (value : Int32)
  | flushed (size : Nat)
  | grown (size : Nat)
  | streamOpened (direction : Direction) (source destination : Nat)
  | streamDone (read written : Nat)
  | converted (direction : Direction) (source result : Nat)
  | fileOpened (direction : Direction) (source destination : String)
  | trained (size count total : Nat)
  | finalized (size content : Nat)
  deriving Repr, DecidableEq

namespace Record

/-- The level of a record: what happens inside an operation is traced, the rest is for debugging. -/
def level : Record → Level
  | .compressorParameter .. | .windowLogMax .. | .flushed .. | .grown .. => .trace
  | _ => .debug

/-- The text of a record. -/
def text : Record → String
  | .compressorParameter p v => s!"compressor parameter {p.symbol} = {v.toInt}"
  | .windowLogMax v => s!"decompressor parameter ZSTD_d_windowLogMax = {v.toInt}"
  | .flushed n => s!"flush {n} bytes of destination"
  | .grown n => s!"destination grown to {n} bytes"
  | .streamOpened direction source destination =>
    let s := ByteSize.render source
    let d := ByteSize.render destination
    s!"{direction.verb} stream: source buffer {s}, destination buffer {d}"
  | .streamDone read written =>
    let r := ByteSize.render read
    let w := ByteSize.render written
    s!"stream done: read {r}, wrote {w}"
  | .converted direction source result =>
    let s := ByteSize.render source
    let r := ByteSize.render result
    s!"{direction.verb}ed {s} into {r}"
  | .fileOpened direction source destination =>
    s!"{direction.verb} file {source} -> {destination}"
  | .trained size count total =>
    let s := ByteSize.render size
    let t := ByteSize.render total
    s!"trained dictionary: {s} from {count} samples ({t})"
  | .finalized size content =>
    let s := ByteSize.render size
    let c := ByteSize.render content
    s!"finalized dictionary: {s} from {c} of content"

end Record

/-- Records, the oldest first. -/
abbrev Log := Array Record

end Zstandard
