import MeasuredBoot.Artifact
import MeasuredBoot.SourceError

/-!
# Firmware vendor version

Firmware of the Open Compute Project, version 1, carries a marker in front of its vendor version.
`VendorVersion.find` gives the place of the first one.
-/

namespace MeasuredBoot.VendorVersion

/-- The marker. -/
def marker : ByteArray :=
  ⟨#[0x05, 0x2B, 0x10, 0xA7, 0xC7, 0xD9, 0x65, 0x41,
     0x81, 0x40, 0x2A, 0xDD, 0xE9, 0x4A, 0xF6, 0x3C]⟩

/-- Where the marker occurs first in an image. -/
def find (image : BiosImage) : Except SourceError Range :=
  match Bytes.find? marker image.bytes with
  | some offset => .ok ⟨offset.toUInt64, marker.size.toUInt64⟩
  | none => .error .vendorVersionNotFound

end MeasuredBoot.VendorVersion
