import MeasuredBoot.Main
import MeasuredBoot.Sample
import MeasuredBoot.Proofs.Results
import MeasuredBoot.Proofs.Range.Covering
import MeasuredBoot.Proofs.Range.Merging
import MeasuredBoot.Proofs.Range.Cutting
import MeasuredBoot.Proofs.Range.Remainders
import MeasuredBoot.Proofs.Reference.Offsets
import MeasuredBoot.Proofs.AddressMapper.Translation
import MeasuredBoot.Proofs.AddressMapper.Merging
import MeasuredBoot.Proofs.Reference.Native
import MeasuredBoot.Proofs.Reference.Bytes
import MeasuredBoot.Proofs.Bytes.Hamming
import MeasuredBoot.Proofs.Bytes.Windows
import MeasuredBoot.Proofs.Bytes.Words
import MeasuredBoot.Proofs.Combination.Binomial
import MeasuredBoot.Proofs.Combination.Ranking
import MeasuredBoot.Proofs.Combination.Stepping
import MeasuredBoot.Proofs.Search.Shell
import MeasuredBoot.Proofs.Search.Outcome
import MeasuredBoot.Proofs.Search.Nearest
import MeasuredBoot.Proofs.Search.Rejecting
import MeasuredBoot.Proofs.Search.Exhausted
import MeasuredBoot.Proofs.Search.Failing
import MeasuredBoot.Proofs.Search.Context
import MeasuredBoot.Proofs.Artifact.Extents
import MeasuredBoot.Proofs.Artifact.Alike
import MeasuredBoot.Proofs.Register.Layout
import MeasuredBoot.Proofs.Firmware.Contents
import MeasuredBoot.Proofs.Tpm.Replay
import MeasuredBoot.Proofs.Tpm.OneByOne
import MeasuredBoot.Proofs.Tpm.Committed
import MeasuredBoot.Proofs.Tpm.Extending
import MeasuredBoot.Proofs.Tpm.Ready
import MeasuredBoot.Proofs.Tpm.Slots
import MeasuredBoot.Proofs.Run.Books
import MeasuredBoot.Proofs.Run.Finish
import MeasuredBoot.Proofs.Run.Mirror
import MeasuredBoot.Proofs.Run.Walk
import MeasuredBoot.Proofs.Run.Log
import MeasuredBoot.Proofs.Run.Measuring
import MeasuredBoot.Proofs.Run.Platforms
import MeasuredBoot.Proofs.Run.ClosedForm
import MeasuredBoot.Proofs.Recovery.Location
import MeasuredBoot.Proofs.Recovery.Replay
import MeasuredBoot.Proofs.Recovery.Nearest
import MeasuredBoot.Proofs.Recovery.Rerun
import MeasuredBoot.Proofs.Recovery.Intel
import MeasuredBoot.Proofs.Run.Status
import MeasuredBoot.Proofs.Run.Termination
import MeasuredBoot.Proofs.Run.Chronicle
import MeasuredBoot.Proofs.Run.Verdict
import MeasuredBoot.Proofs.Firmware.TableImage
import MeasuredBoot.Proofs.Firmware.Readable
import MeasuredBoot.Proofs.Run.Malformed
import MeasuredBoot.Proofs.Run.Dispatch
import MeasuredBoot.Proofs.AddressMapper.Cutting
import MeasuredBoot.Proofs.Reference.Difference
import MeasuredBoot.Proofs.Firmware.Located
import MeasuredBoot.Proofs.Firmware.Agreement
import MeasuredBoot.Proofs.Tpm.Narrowing
import MeasuredBoot.Proofs.Run.Lockstep
import MeasuredBoot.Proofs.Run.Narrowing
import MeasuredBoot.Proofs.Run.Confined
import MeasuredBoot.Proofs.Tpm.Allocation
import MeasuredBoot.Proofs.Run.Untouched
import MeasuredBoot.Proofs.Firmware.Flash
import MeasuredBoot.Proofs.Firmware.Reachable
import MeasuredBoot.Proofs.Run.Directories
import MeasuredBoot.Proofs.Tpm.Startup
import MeasuredBoot.Proofs.Register.Reading
import MeasuredBoot.Proofs.Recovery.Locating
import MeasuredBoot.Proofs.Reference.Reading
import MeasuredBoot.Proofs.Checked
import MeasuredBoot.Proofs.AddressMapper.Checked
import MeasuredBoot.Proofs.AddressMapper.RoundTrip
import MeasuredBoot.Proofs.Firmware.FitTable
import MeasuredBoot.Proofs.Firmware.DirectoryTable
import MeasuredBoot.Proofs.Bytes.Sphere
import MeasuredBoot.Proofs.Artifact.Reading
