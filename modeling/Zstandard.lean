import Zstandard.Adapter.Reading
import Zstandard.Adapter.Writing
import Zstandard.Collector
import Zstandard.Dictionary.Build
import Zstandard.Encoder
import Zstandard.Files
import Zstandard.Options.Map
import Zstandard.Proofs.Bookkeeping
import Zstandard.Proofs.BoundedQueue
import Zstandard.Proofs.Compression
import Zstandard.Proofs.Concatenation
import Zstandard.Proofs.Conservation
import Zstandard.Proofs.Events
import Zstandard.Proofs.FilePaths
import Zstandard.Proofs.FirstProblem
import Zstandard.Proofs.Interruptions
import Zstandard.Proofs.LinearGrowth
import Zstandard.Proofs.Losses
import Zstandard.Proofs.Queue
import Zstandard.Proofs.Refusals
import Zstandard.Proofs.Retrying
import Zstandard.Proofs.SameFrame
import Zstandard.Proofs.Spinning
import Zstandard.Proofs.Unstuck
import Zstandard.Route
import Zstandard.Script
import Zstandard.Verification
