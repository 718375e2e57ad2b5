import MeasuredBoot.Tpm.Algorithm
import MeasuredBoot.Text.Hex
import MeasuredBoot.Text.Layout

/-!
# Refusals of a trusted platform module

`TpmError` says why a command, or a batch of them, was refused.
-/

namespace MeasuredBoot

/-- Why a trusted platform module refused something. -/
inductive TpmError where
  /-- The module has no such PCR yet. -/
  | pcrNotInitialized (pcr : UInt8)
  /-- The PCR has no value in the bank of the algorithm. -/
  | slotNotInitialized (pcr : UInt8) (alg : Algorithm)
  /-- The module was started before. -/
  | alreadyInitialized (current requested : UInt8)
  /-- The module was closed. -/
  | finished
  /-- The algorithm is no hash function, or has no bank. -/
  | unsupportedHashAlgorithm (alg : Algorithm)
  /-- A digest does not have the size of the algorithm's digests. -/
  | digestSizeMismatch (alg : Algorithm) (expected got : Nat)
  /-- A value was offered for an algorithm beyond the last one that can have a bank. -/
  | algorithmBeyondBanks (alg : Algorithm)
  /-- A command of a batch was refused, at its position in the batch. -/
  | commandFailed (index : Nat) (command : String) (reason : TpmError)
  deriving DecidableEq, Repr

/-- The name of the kind of a refusal. -/
def TpmError.kind : TpmError → String
  | .pcrNotInitialized _ => "Tpm.PcrNotInitialized"
  | .slotNotInitialized .. => "Tpm.SlotNotInitialized"
  | .alreadyInitialized .. => "Tpm.AlreadyInitialized"
  | .finished => "Tpm.Finished"
  | .unsupportedHashAlgorithm _ => "Tpm.UnsupportedHashAlgorithm"
  | .digestSizeMismatch .. => "Tpm.DigestSizeMismatch"
  | .algorithmBeyondBanks _ => "Tpm.AlgorithmBeyondBanks"
  | .commandFailed .. => "Tpm.CommandFailed"

/-- The text of a refusal. -/
def TpmError.message : TpmError → String
  | .pcrNotInitialized pcr => s!"PCR {pcr.toNat} is not initialized"
  | .slotNotInitialized pcr alg => s!"PCR {pcr.toNat}:{alg.name} is not initialized"
  | .alreadyInitialized current requested =>
    s!"TPM is already initialized at locality {current.toNat}, requested locality {requested.toNat}"
  | .finished => "TPM is finished and accepts no further commands"
  | .unsupportedHashAlgorithm alg => s!"Unsupported hash algorithm: {alg.name}"
  | .digestSizeMismatch alg expected got =>
    s!"Digest size mismatch for {alg.name}: expected {expected} bytes, got {got}"
  | .algorithmBeyondBanks alg =>
    s!"too high value of hash algorithm: {alg.name} " ++
      s!"(0x{Text.zeroPadded 4 (Hex.upper alg.id)}) > {Algorithm.sha512.name}"
  | .commandFailed index command reason =>
    s!"Unable to apply command #{index} '{command}': {reason.message}"

end MeasuredBoot
