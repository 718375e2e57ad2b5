import MeasuredBoot.Reference

/-!
# Data sources

A `DataSource` names the bytes of a measurement without fetching them: given bytes, references, a
status register, or a structure that a `Probe` finds in the firmware image.
-/

namespace MeasuredBoot

/-- The structures of a firmware image, or of an image and the registers, that can be measured. -/
inductive Probe where
  /-- The pointer to the Firmware Interface Table. -/
  | fitPointer
  /-- The Firmware Interface Table. -/
  | fitHeaders
  /-- The policy status register and the Firmware Interface Table. -/
  | pcr0Data
  /-- The initial boot block. -/
  | ibb
  /-- The Embedded Firmware Structure. -/
  | embeddedFirmware
  /-- The BIOS directory tables. -/
  | biosDirectory
  /-- The marker of the firmware vendor version. -/
  | vendorVersion
  deriving DecidableEq, Repr

/-- The name of a probe, behind that of its platform. -/
def Probe.name : Probe → String
  | .fitPointer => "intel:FITPointer"
  | .fitHeaders => "intel:FITHeaders"
  | .pcr0Data => "intel:PCR0_DATA"
  | .ibb => "intel:IBB"
  | .embeddedFirmware => "amd:EmbeddedFirmware"
  | .biosDirectory => "amd:BIOSDirectory"
  | .vendorVersion => "ocp:FirmwareVendorVersion"

/-- Where the bytes of a measurement come from. -/
inductive DataSource where
  | bytes (bytes : ByteArray)
  | references (refs : References)
  | register (id : Register)
  | probe (p : Probe)

/-- The text of a source. -/
def DataSource.text : DataSource → String
  | .bytes bs => "bytes:" ++ Hex.encode bs
  | .references refs => refs.text
  | .register id => "register:" ++ id.name
  | .probe p => p.name

end MeasuredBoot
