import MeasuredBoot.Register
import MeasuredBoot.Text.Hex
import MeasuredBoot.Text.Layout

/-!
# Data that cannot be located

A `SourceError` says why the bytes that a data source stands for cannot be found: a structure of the
firmware image is absent or malformed, or a register has no value.
-/

namespace MeasuredBoot

/-- Why data cannot be located. -/
inductive SourceError where
  /-- The snapshot has no value of the register. -/
  | registerMissing (id : Register)
  /-- An image of `size` bytes does not reach down to the FIT pointer. -/
  | imageTooSmall (size : Nat)
  /-- No FIT header fits into the image where the FIT pointer points to. -/
  | fitPointerOutOfImage (pointer : UInt64)
  /-- What the FIT pointer points to does not start like a FIT. -/
  | fitSignatureMismatch (offset : Nat)
  /-- The FIT has no header entry, or reaches past the end of the image. -/
  | fitTruncated (entries : Nat)
  /-- The FIT has no entry of a type that is needed. -/
  | fitEntryMissing (entryType : UInt8)
  /-- No Embedded Firmware Structure stands at any of its well-known offsets. -/
  | embeddedFirmwareNotFound
  /-- A BIOS directory table starts with an unknown cookie. -/
  | biosDirectoryCookieInvalid (offset : Nat) (cookie : UInt32)
  /-- A BIOS directory table reaches past the end of the image; `position` is its address where
  not even the header fits and its offset otherwise. -/
  | biosDirectoryTruncated (position : Nat)
  /-- The Embedded Firmware Structure points to no BIOS directory table. -/
  | biosDirectoryNotFound
  /-- The marker of the firmware vendor version does not occur in the image. -/
  | vendorVersionNotFound
  deriving DecidableEq, Repr

/-- The name of the kind of an error. -/
def SourceError.kind : SourceError → String
  | .registerMissing _ => "DataSource.RegisterMissing"
  | .imageTooSmall _ => "DataSource.ImageTooSmall"
  | .fitPointerOutOfImage _ => "DataSource.FitPointerOutOfImage"
  | .fitSignatureMismatch _ => "DataSource.FitSignatureMismatch"
  | .fitTruncated _ => "DataSource.FitTruncated"
  | .fitEntryMissing _ => "DataSource.FitEntryMissing"
  | .embeddedFirmwareNotFound => "DataSource.EmbeddedFirmwareNotFound"
  | .biosDirectoryCookieInvalid .. => "DataSource.BiosDirectoryCookieInvalid"
  | .biosDirectoryTruncated _ => "DataSource.BiosDirectoryTruncated"
  | .biosDirectoryNotFound => "DataSource.BiosDirectoryNotFound"
  | .vendorVersionNotFound => "DataSource.VendorVersionNotFound"

/-- The text of an error. -/
def SourceError.message : SourceError → String
  | .registerMissing id => s!"Register {id.name} is not present in the registers snapshot"
  | .imageTooSmall size => s!"Firmware image of {size} bytes is too small for the FIT pointer"
  | .fitPointerOutOfImage pointer =>
    s!"FIT pointer 0x{Hex.upper pointer.toNat} does not point into the firmware image"
  | .fitSignatureMismatch offset => s!"FIT header signature mismatch at 0x{Hex.upper offset}"
  | .fitTruncated entries => s!"FIT declares {entries} entries which do not fit into the image"
  | .fitEntryMissing entryType =>
    s!"No FIT entries of type 0x{Text.zeroPadded 2 (Hex.upper entryType.toNat)}"
  | .embeddedFirmwareNotFound => "Embedded Firmware Structure is not found"
  | .biosDirectoryCookieInvalid offset cookie =>
    s!"BIOS directory table at 0x{Hex.upper offset} has unexpected cookie " ++
      s!"0x{Text.zeroPadded 8 (Hex.upper cookie.toNat)}"
  | .biosDirectoryTruncated position =>
    s!"BIOS directory table at 0x{Hex.upper position} is truncated"
  | .biosDirectoryNotFound => "Embedded Firmware Structure points to no BIOS directory table"
  | .vendorVersionNotFound => "Firmware vendor version is not found in the image"

end MeasuredBoot
