import MeasuredBoot.BootError
import MeasuredBoot.Search

/-!
# Failures of a recovery

A `RecoveryError` says why PCR values cannot be replayed, or why a register cannot be recovered from
a replay.
-/

namespace MeasuredBoot

/-- Why a recovery failed. -/
inductive RecoveryError where
  /-- The run left nothing to be replayed. -/
  | run (reason : BootError)
  /-- An extension cannot be computed. -/
  | replay (reason : TpmError)
  /-- The trusted platform module was never started. -/
  | tpmNotInitialized (pcr : UInt8)
  /-- An extension was logged without the data that was measured. -/
  | payloadUnknown (pcr : UInt8) (index : Nat)
  /-- The bytes of the register are not where they are said to be. -/
  | registerNotMeasured (id : Register) (pcr : UInt8)
  /-- The expected value does not have the size of the algorithm's digests. -/
  | digestSizeMismatch (alg : Algorithm) (expected got : Nat)
  /-- The search for flipped bits failed. -/
  | search (reason : SearchError)
  deriving DecidableEq, Repr

/-- The name of the kind of a failure. -/
def RecoveryError.kind : RecoveryError → String
  | .run reason => "Recovery." ++ reason.kind
  | .replay reason => "Recovery." ++ reason.kind
  | .tpmNotInitialized _ => "Recovery.TpmNotInitialized"
  | .payloadUnknown .. => "Recovery.PayloadUnknown"
  | .registerNotMeasured .. => "Recovery.RegisterNotMeasured"
  | .digestSizeMismatch .. => "Recovery.DigestSizeMismatch"
  | .search reason => "Recovery." ++ reason.kind

/-- The texts of the failures that a failure is made of, the outermost first. -/
def RecoveryError.causes : RecoveryError → List String
  | .run reason => reason.message :: reason.causes
  | .replay reason => [reason.message]
  | .search reason => [reason.message]
  | .tpmNotInitialized _ | .payloadUnknown .. | .registerNotMeasured .. | .digestSizeMismatch .. => []

/-- The text of a failure. -/
def RecoveryError.message : RecoveryError → String
  | .run reason => "Boot run is unusable: " ++ reason.message
  | .replay reason => "Replay failed: " ++ reason.message
  | .tpmNotInitialized pcr =>
    s!"TPM was never initialized, PCR{pcr.toNat} has no starting value"
  | .payloadUnknown pcr index =>
    s!"Measurement #{index} into PCR{pcr.toNat} has no recorded payload"
  | .registerNotMeasured id pcr =>
    s!"Register {id.name} is not part of any measurement into PCR{pcr.toNat}"
  | .digestSizeMismatch alg expected got =>
    s!"Expected {alg.name} value has {got} bytes, expected {expected}"
  | .search reason => "Brute force failed: " ++ reason.message

end MeasuredBoot
