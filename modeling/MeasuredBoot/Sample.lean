import MeasuredBoot.Machine

/-!
# Sample images

Small firmware images that carry just enough structure for the flow of one platform to run to its
end, and a register snapshot that goes with them. They are laid out with the encoders of the
structures that the platforms look for.
-/

namespace MeasuredBoot.Sample

/-- An entry of a sample FIT. -/
def fitEntry (address : UInt64) (size : UInt32) (entryType : UInt8) : FitEntry :=
  { address, size, version := 0x0100, entryType, checksumValid := false, checksum := 0 }

/-- A sample FIT: a header, a microcode update and two regions of the initial boot block. -/
def fitEntries : List FitEntry := [
  fitEntry (Bytes.word Fit.signature 0 8).toUInt64 4 0x00,
  fitEntry 0xFFFF9000 0 0x01,
  fitEntry 0xFFFFC000 0x200 FitEntry.biosStartupModule,
  fitEntry 0xFFFFE000 0x100 FitEntry.biosStartupModule]

/-- An image of 64 KiB with a FIT in its middle, between bytes that follow a pattern. -/
def intelImage : ByteArray :=
  let pattern := Bytes.tabulate 0x10000 fun i => (i * 31 ^^^ i / 256).toUInt8
  let pointed := Bytes.splice pattern (0x10000 - 0x40) (Bytes.ofWord 0xFFFF8000 8)
  Bytes.splice pointed 0x8000 (fitEntries.foldl (fun bytes e => bytes ++ e.encode) ByteArray.empty)

/-- A register snapshot of a machine with a FIT. -/
def intelRegisters : Registers :=
  { acmPolicyStatus := some 0x1032980E5B, btgSacmInfo := some 0x10000007D }

/-- An entry of a sample BIOS directory table. -/
def directoryEntry (entryType : UInt8) (size : UInt32) (source : UInt64) : BiosDirectoryEntry :=
  { entryType, regionType := 0, flags := 0, subProgram := 0, size
    sourceAddress := source, destinationAddress := 0xFFFFFFFFFFFFFFFF }

/-- A table of the first level, which points to `level2`. -/
def level1 : BiosDirectory :=
  ⟨0xFF030000, BiosDirectory.level1Cookie, 0, [
    directoryEntry 0x62 0x1000 0xFF031000,
    directoryEntry BiosDirectoryEntry.level2Directory 0x400 0xFF032000]⟩

/-- A table of the second level. -/
def level2 : BiosDirectory :=
  ⟨0xFF032000, BiosDirectory.level2Cookie, 0, [directoryEntry 0x62 0x2000 0xFF034000]⟩

/-- A structure that points to `level1`. -/
def embeddedFirmware : EmbeddedFirmware := ⟨0x20000, 0, [0xFF030000, 0, 0]⟩

/-- An erased flash of 256 KiB with an Embedded Firmware Structure and two tables. -/
def amdImage : ByteArray :=
  let erased := Bytes.replicate 0x40000 0xFF
  let pointed := Bytes.splice erased 0x20000 embeddedFirmware.encode
  Bytes.splice (Bytes.splice pointed 0x30000 level1.encode) 0x32000 level2.encode

/-- An image of 64 KiB with a vendor version marker and a version. -/
def ocpImage : ByteArray :=
  Bytes.splice (Bytes.replicate 0x10000 0) 0x4000
    (VendorVersion.marker ++ "OCP-FW-1.2.3".toUTF8)

/-- An erased flash of 64 KiB, in which no platform is detected. -/
def blankImage : ByteArray := Bytes.replicate 0x10000 0xFF

end MeasuredBoot.Sample
