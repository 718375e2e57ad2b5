import MeasuredBoot.BootError
import MeasuredBoot.Data
import MeasuredBoot.Firmware.BiosDirectory
import MeasuredBoot.Firmware.Fit
import MeasuredBoot.Firmware.VendorVersion

/-!
# Locating the data of a source

`DataSource.locate` finds the data that a source stands for among some artifacts. What a probe finds
in the firmware image is given by reference, so that the bytes can be told apart later on.
-/

namespace MeasuredBoot

/-- The value of a register, which has to be present in the snapshot. -/
def Register.locate (id : Register) (as : Artifacts) : Except BootError Reference := do
  let snapshot ← as.getRegisters.mapError .contract
  match snapshot.get? id with
  | some _ => return ⟨⟨.registers, none⟩, [id.range]⟩
  | none => throw (.source (.registerMissing id))

/-- A reference to physical addresses of the image. -/
def physicalMemory (ranges : Ranges) : Reference := ⟨⟨.biosImage, some .physMem⟩, ranges⟩

/-- A reference to addresses in the flash window of the image. -/
def flashMemory (ranges : Ranges) : Reference := ⟨⟨.biosImage, some .amdFlash⟩, ranges⟩

/-- A reference to offsets of the image. -/
def imageOffsets (ranges : Ranges) : Reference := ⟨⟨.biosImage, none⟩, ranges⟩

/-- What a probe finds in an image, which is that of the artifacts. -/
def Probe.locateIn (image : BiosImage) (as : Artifacts) : Probe → Except BootError References
  | .fitPointer => return [physicalMemory [⟨Fit.pointerAddress, Fit.pointerSize.toUInt64⟩]]
  | .fitHeaders => do
    let fit ← (Fit.read image).mapError .source
    return [physicalMemory [fit.tableRange]]
  | .pcr0Data => do
    let fit ← (Fit.read image).mapError .source
    let status ← Register.acmPolicyStatus.locate as
    return [status, physicalMemory [fit.tableRange]]
  | .ibb => do
    let fit ← (Fit.read image).mapError .source
    let regions ← fit.bootBlock.mapError .source
    return [physicalMemory regions]
  | .embeddedFirmware => do
    let efs ← (EmbeddedFirmware.find image).mapError .source
    return [imageOffsets [efs.range]]
  | .biosDirectory => do
    let tables ← (BiosDirectory.ofImage image).mapError .source
    return [flashMemory (tables.map BiosDirectory.range)]
  | .vendorVersion => do
    let range ← (VendorVersion.find image).mapError .source
    return [imageOffsets [range]]

/-- What a probe finds, for which there has to be an image. -/
def Probe.locate (p : Probe) (as : Artifacts) : Except BootError References := do
  let image ← as.getImage.mapError .contract
  p.locateIn image as

/-- The data that a source stands for. -/
def DataSource.locate (source : DataSource) (as : Artifacts) : Except BootError Data :=
  match source with
  | .bytes bs => .ok (Data.forced bs)
  | .references refs => .ok (Data.references refs)
  | .register id => return Data.references [← id.locate as]
  | .probe p => return Data.references (← p.locate as)

end MeasuredBoot
