import Zstandard.Options.Setup
import Zstandard.Pump

/-!
# Streams: from a reader to a writer in one go

A stream operation checks its options, sets up a codec and two buffers, and pumps everything the
reader has into the writer. Bytes that were written before a failure stay written.

The result tells more than success: the ends as they were left, the codec if it came into being,
and the log.
-/

namespace Zstandard

/-- What came of a stream operation. -/
structure Transfer (κ ε : Type) where
  result : Except (Halt Error) Unit
  codec : Option κ
  ends : ε
  log : Log

namespace Stream

variable {κ ε : Type} [Codec κ] [Reader ε] [Writer ε]

/-- Runs `work` on a new pump. -/
def run (memory : Memory) (direction : Direction) (sourceLength destinationLength : Nat)
    (work : Pump.Work κ ε Unit) (codec : κ) (ends : ε) (log : Log) : Transfer κ ε :=
  match Pump.create memory codec ends log sourceLength destinationLength with
  | .error e => ⟨.error (.failed e), some codec, ends, log⟩
  | .ok pump =>
    match (do Pump.note (.streamOpened direction sourceLength destinationLength); work) pump with
    | .ok () p => ⟨.ok (), some p.codec, p.ends, p.log⟩
    | .error h p => ⟨.error h, some p.codec, p.ends, p.log⟩

/-- Compresses everything the reader has into one frame for the writer. -/
def compress (memory : Memory) (create : CompressorOptions → Except Error κ) (turns : Nat)
    (o : CompressorOptions) (ends : ε) (log : Log) : Transfer κ ε :=
  match o.validate with
  | .error e => ⟨.error (.failed e), none, ends, log⟩
  | .ok () =>
    match o.setUp create log with
    | (.error e, log) => ⟨.error (.failed e), none, ends, log⟩
    | (.ok codec, log) =>
      run memory .compress o.sourceLength o.destinationLength
        (do Pump.readSource turns; Pump.finish turns; Pump.complete turns) codec ends log

/-- Decompresses every frame the reader has for the writer. -/
def decompress (memory : Memory) (create : DecompressorOptions → Except Error κ) (turns : Nat)
    (o : DecompressorOptions) (ends : ε) (log : Log) : Transfer κ ε :=
  match o.validate with
  | .error e => ⟨.error (.failed e), none, ends, log⟩
  | .ok () =>
    match o.setUp create log with
    | (.error e, log) => ⟨.error (.failed e), none, ends, log⟩
    | (.ok codec, log) =>
      run memory .decompress o.sourceLength o.destinationLength
        (do Pump.readSource turns; Pump.endOfInput; Pump.complete turns) codec ends log

end Stream

end Zstandard
