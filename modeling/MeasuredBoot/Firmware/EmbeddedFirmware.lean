import MeasuredBoot.AddressMapper
import MeasuredBoot.SourceError

/-!
# Embedded Firmware Structure

The Embedded Firmware Structure (EFS) stands at one of a few well-known offsets of the flash window
and points to the firmware's directories. `EmbeddedFirmware.find` gives the first one.
-/

namespace MeasuredBoot

/-- An Embedded Firmware Structure. -/
structure EmbeddedFirmware where
  /-- The offset of the structure in the image. -/
  offset : Nat
  /-- The address of the directory of the platform security processor. -/
  pspPointer : UInt32
  /-- The addresses of the BIOS directory tables, one for each generation of processors. -/
  biosPointers : List UInt32
  deriving DecidableEq, Repr

namespace EmbeddedFirmware

/-- The number that a structure starts with. -/
def signature : Nat := 0x55AA55AA

/-- The size of a structure in bytes. -/
def byteSize : Nat := 36

/-- Where a structure can stand in the flash window, in the order of search. -/
def wellKnownOffsets : List Nat := [0xFA0000, 0xF20000, 0xE20000, 0xC20000, 0x820000, 0x020000]

/-- The structure whose bytes start at an offset. -/
def decode (bytes : ByteArray) (offset : Nat) : EmbeddedFirmware where
  offset := offset
  pspPointer := (Bytes.word bytes (offset + 20) 4).toUInt32
  biosPointers := [24, 28, 32].map fun i => (Bytes.word bytes (offset + i) 4).toUInt32

/-- The bytes of a structure. -/
def encode (efs : EmbeddedFirmware) : ByteArray :=
  efs.biosPointers.foldl (fun bytes p => bytes ++ Bytes.ofWord p.toNat 4)
    (Bytes.ofWord signature 4 ++ Bytes.replicate 16 0 ++ Bytes.ofWord efs.pspPointer.toNat 4)

/-- Whether a whole structure lies in the image at an offset. -/
def standsAt (image : BiosImage) (offset : Nat) : Bool :=
  offset + byteSize ≤ image.size && Bytes.word image.bytes offset 4 == signature

/-- The structure of an image. -/
def find (image : BiosImage) : Except SourceError EmbeddedFirmware :=
  let window := AddressMapper.windowStart image.size
  match (wellKnownOffsets.map (window + ·)).find? (standsAt image) with
  | some offset => .ok (decode image.bytes offset)
  | none => .error .embeddedFirmwareNotFound

/-- Where the structure stands in the image. -/
def range (efs : EmbeddedFirmware) : Range := ⟨efs.offset.toUInt64, byteSize.toUInt64⟩

/-- The addresses of the BIOS directory tables; a pointer whose bits are all equal is unused. -/
def directoryAddresses (efs : EmbeddedFirmware) : List UInt64 :=
  (efs.biosPointers.filter fun p => p ≠ 0 ∧ p ≠ 0xFFFFFFFF).map (·.toUInt64)

end EmbeddedFirmware

end MeasuredBoot
