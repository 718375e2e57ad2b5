import MeasuredBoot.AddressSpace
import MeasuredBoot.Range

/-!
# Violations of the simulation's contract

A `ContractViolation` means that the parts of a simulation do not fit together: something is
included twice, is missing, or is referred to outside its bounds. Malformed firmware has errors of
its own.
-/

namespace MeasuredBoot

/-- The roots of trust that consume measurements. -/
inductive TrustChain where
  /-- A trusted platform module. -/
  | tpm
  deriving DecidableEq, Repr

/-- The name of a trust chain in texts. -/
def TrustChain.name : TrustChain → String
  | .tpm => "TPM"

/-- Why the parts of a simulation do not fit together. -/
inductive ContractViolation where
  /-- A second artifact of one kind was included. -/
  | duplicateArtifact (kind : ArtifactKind)
  /-- A second trust chain of one kind was included. -/
  | duplicateTrustChain (chain : TrustChain)
  /-- An artifact is referred to that was not included. -/
  | artifactMissing (kind : ArtifactKind)
  /-- A range reaches past the end of an artifact; `got` bytes of it exist. -/
  | shortRead (kind : ArtifactKind) (range : Range) (got : Nat)
  /-- A range of addresses, or of offsets, has no counterpart within an artifact of `size` bytes. -/
  | unresolvableRange (mapper : AddressMapper) (kind : ArtifactKind) (range : Range) (size : Nat)
  deriving DecidableEq, Repr

/-- The name of the kind of a violation. -/
def ContractViolation.kind : ContractViolation → String
  | .duplicateArtifact _ => "Contract.DuplicateArtifact"
  | .duplicateTrustChain _ => "Contract.DuplicateTrustChain"
  | .artifactMissing _ => "Contract.ArtifactMissing"
  | .shortRead .. => "Contract.ShortRead"
  | .unresolvableRange .. => "Contract.UnresolvableRange"

/-- The text of a violation. -/
def ContractViolation.message : ContractViolation → String
  | .duplicateArtifact kind =>
    s!"Artifact {kind.name} is already included (one instance per kind)"
  | .duplicateTrustChain chain =>
    s!"Trust chain {chain.name} is already included (one instance per kind)"
  | .artifactMissing kind =>
    s!"Artifact {kind.name} is referenced but not included in the state"
  | .shortRead kind range got =>
    s!"Short read from {kind.name} at 0x{Hex.upper range.offset.toNat}: " ++
      s!"expected {range.length.toNat} bytes, got {got}"
  | .unresolvableRange mapper kind range size =>
    s!"{mapper.name} cannot map range 0x{Hex.upper range.offset.toNat}:0x{Hex.upper range.stop} " ++
      s!"within {kind.name} (size 0x{Hex.upper size})"

end MeasuredBoot
