import Zstandard.Decoder
import Zstandard.Frame.Summary
import Zstandard.OneShot

/-!
# Verification: a frame held against its source

A frame is verified by decompressing it, with the dictionary it was made with and the largest
window allowed, and comparing what comes out with the source.
-/

namespace Zstandard

/-- What verifying a frame came to. -/
structure Verification where
  summary : FrameSummary
  /-- Whether the source came out, or why nothing did. -/
  restored : Except (Halt Error) Bool

/-- Verifies `frame` against `source`. -/
def verify (memory : Memory) (turns : Nat) (dictionary : Option Dictionary)
    (frame source : ByteArray) (log : Log) : Verification × Log :=
  let o : DecompressorOptions := { windowLogMax := some 31, dictionary }
  match OneShot.decompress memory FrameDecoder.create turns o frame log with
  | ⟨result, _, log⟩ => (⟨.of (.ofBytes frame), result.map (· == source)⟩, log)

end Zstandard
