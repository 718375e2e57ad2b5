import MeasuredBoot.ContractViolation
import MeasuredBoot.SourceError
import MeasuredBoot.Tpm.Error

/-!
# Problems during a boot

A `BootError` is what can go wrong while actions are carried out. It either aborts the boot or is
noted as an issue.
-/

namespace MeasuredBoot

/-- A problem during a boot. -/
inductive BootError where
  /-- The parts of the simulation do not fit together. -/
  | contract (violation : ContractViolation)
  /-- The trusted platform module refused something. -/
  | tpm (reason : TpmError)
  /-- Data to be measured cannot be located. -/
  | source (reason : SourceError)
  /-- The machine has no such trust chain. -/
  | chainMissing (chain : TrustChain)
  /-- The flow gave up. -/
  | panic (message : String)
  /-- Data to be measured is empty; `what` is its source. -/
  | emptyMeasurement (what : String)
  deriving DecidableEq, Repr

/-- The name of the kind of a problem. -/
def BootError.kind : BootError → String
  | .contract violation => violation.kind
  | .tpm reason => reason.kind
  | .source reason => reason.kind
  | .chainMissing _ => "TrustChainMissing"
  | .panic _ => "Panic"
  | .emptyMeasurement _ => "EmptyMeasurement"

/-- The texts of the problems that a problem is made of, the outermost first. -/
def BootError.causes : BootError → List String
  | .contract violation => [violation.message]
  | .tpm reason => [reason.message]
  | .source reason => [reason.message]
  | .chainMissing _ | .panic _ | .emptyMeasurement _ => []

/-- The text of a problem. -/
def BootError.message : BootError → String
  | .contract violation => "Contract violation: " ++ violation.message
  | .tpm reason => "TPM command failed: " ++ reason.message
  | .source reason => "Data source failed: " ++ reason.message
  | .chainMissing chain => s!"Trust chain {chain.name} is not included in the state"
  | .panic message => "Flow panicked: " ++ message
  | .emptyMeasurement what => s!"Nothing to measure: {what} yielded no bytes"

end MeasuredBoot
