import MeasuredBoot.Firmware.EmbeddedFirmware
import MeasuredBoot.Firmware.Fit
import MeasuredBoot.Firmware.VendorVersion

/-!
# Conditions

A `Condition` on the artifacts of a machine decides whether a step of a flow does anything. What
cannot be evaluated does not hold, so that a flow can look for one platform after another.
-/

namespace MeasuredBoot

/-- A condition on artifacts. -/
inductive Condition where
  /-- The image has a Firmware Interface Table. -/
  | fitPresent
  /-- The image has an Embedded Firmware Structure. -/
  | embeddedFirmwarePresent
  /-- The image has the vendor version marker of the Open Compute Project. -/
  | vendorVersionPresent
  /-- The register has a value. -/
  | registerPresent (id : Register)
  | not (c : Condition)
  | always (value : Bool)
  deriving DecidableEq, Repr

namespace Condition

/-- Whether there is an image in which something is found. -/
def imageHas {α : Type} (as : Artifacts) (find : BiosImage → Except SourceError α) : Bool :=
  match as.image with
  | some image => (find image).isOk
  | none => false

/-- Whether a condition holds. -/
def holds (as : Artifacts) : Condition → Bool
  | fitPresent => imageHas as Fit.read
  | embeddedFirmwarePresent => imageHas as EmbeddedFirmware.find
  | vendorVersionPresent => imageHas as VendorVersion.find
  | registerPresent id => (as.snapshot.bind (·.get? id)).isSome
  | not c => !c.holds as
  | always value => value

/-- The text of a condition. -/
def text : Condition → String
  | fitPresent => "FITPresent"
  | embeddedFirmwarePresent => "AMDManifestPresent"
  | vendorVersionPresent => "IsOCPv1"
  | registerPresent id => s!"RegisterPresent({id.name})"
  | not c => s!"Not({c.text})"
  | always value => toString value

end Condition

end MeasuredBoot
