import MeasuredBoot.AddressMapper
import MeasuredBoot.SourceError

/-!
# Firmware Interface Table

The Firmware Interface Table (FIT) of an image lists what the processor has to know before it runs
any firmware. A pointer just below the top of physical memory holds the address of the table. The
table is a sequence of entries of 16 bytes; the first one is a header whose size field counts all
entries.

* `Fit.read`: the table of an image, or the first reason why there is none;
* `FitEntry.decode`: the entry at an offset;
* `Fit.tableRange`: the addresses of the table;
* `FitEntry.dataRange?`: the addresses of what an entry points to.
-/

namespace MeasuredBoot

/-- An entry of a Firmware Interface Table. -/
structure FitEntry where
  /-- The address of the component; the header has the signature of the table here. -/
  address : UInt64
  /-- A number of 24 bits, whose unit depends on the type. -/
  size : UInt32
  version : UInt16
  entryType : UInt8
  checksumValid : Bool
  checksum : UInt8
  deriving DecidableEq, Repr, Inhabited

namespace FitEntry

/-- The size of an entry in bytes. -/
def byteSize : Nat := 16

/-- The type of entries for regions of the initial boot block. -/
def biosStartupModule : UInt8 := 0x07

/-- The type of the entry for the key manifest. -/
def keyManifest : UInt8 := 0x0B

/-- The type of the entry for the boot policy manifest. -/
def bootPolicyManifest : UInt8 := 0x0C

/-- The entry whose bytes start at an offset. -/
def decode (bytes : ByteArray) (offset : Nat) : FitEntry where
  address := (Bytes.word bytes offset 8).toUInt64
  size := (Bytes.word bytes (offset + 8) 3).toUInt32
  version := (Bytes.word bytes (offset + 12) 2).toUInt16
  entryType := Bytes.get bytes (offset + 14) &&& 0x7F
  checksumValid := Bytes.get bytes (offset + 14) &&& 0x80 ≠ 0
  checksum := Bytes.get bytes (offset + 15)

/-- The bytes of an entry. -/
def encode (e : FitEntry) : ByteArray :=
  Bytes.ofWord e.address.toNat 8 ++ Bytes.ofWord e.size.toNat 3 ++ Bytes.ofWord 0 1 ++
    Bytes.ofWord e.version.toNat 2 ++
    ⟨#[e.entryType ||| (if e.checksumValid then 0x80 else 0), e.checksum]⟩

/-- The addresses of what the entry points to, for the types that tell its size. Regions of the
initial boot block count in units of 16 bytes, manifests in bytes. -/
def dataRange? (e : FitEntry) : Option Range :=
  if e.entryType = biosStartupModule then some ⟨e.address, e.size.toUInt64 * 16⟩
  else if e.entryType = keyManifest ∨ e.entryType = bootPolicyManifest then
    some ⟨e.address, e.size.toUInt64⟩
  else none

end FitEntry

/-- A Firmware Interface Table. -/
structure Fit where
  /-- The address of the table. -/
  address : UInt64
  /-- The offset of the table in the image. -/
  offset : Nat
  /-- The entries behind the header. -/
  entries : List FitEntry
  deriving DecidableEq, Repr

namespace Fit

/-- The address of the pointer to the table. -/
def pointerAddress : UInt64 := 0xFFFFFFC0

/-- The size of the pointer to the table in bytes. -/
def pointerSize : Nat := 8

/-- The bytes that a table starts with. -/
def signature : ByteArray := "_FIT_   ".toUTF8

/-- The address that the pointer holds. -/
def readPointer (image : BiosImage) : Except SourceError UInt64 :=
  match AddressMapper.physMem.offsetOfBytes? image.size pointerAddress pointerSize with
  | some offset => .ok (Bytes.word image.bytes offset pointerSize).toUInt64
  | none => .error (.imageTooSmall image.size)

/-- The table of an image. -/
def read (image : BiosImage) : Except SourceError Fit := do
  let address ← readPointer image
  match AddressMapper.physMem.offsetOfBytes? image.size address FitEntry.byteSize with
  | none => throw (.fitPointerOutOfImage address)
  | some offset =>
    if (Bytes.slice image.bytes offset signature.size).data ≠ signature.data then
      throw (.fitSignatureMismatch offset)
    let count := (FitEntry.decode image.bytes offset).size.toNat
    if count = 0 ∨ image.size < offset + FitEntry.byteSize * count then
      throw (.fitTruncated count)
    return {
      address, offset
      entries := (List.range (count - 1)).map fun i =>
        FitEntry.decode image.bytes (offset + FitEntry.byteSize * (i + 1)) }

/-- The addresses of the table, header included. -/
def tableRange (fit : Fit) : Range :=
  ⟨fit.address, (FitEntry.byteSize * (fit.entries.length + 1)).toUInt64⟩

/-- The entries of a type, in order. -/
def entriesOfType (fit : Fit) (entryType : UInt8) : List FitEntry :=
  fit.entries.filter (·.entryType = entryType)

/-- The addresses of the regions of the initial boot block, of which there has to be one. -/
def bootBlock (fit : Fit) : Except SourceError Ranges :=
  match (fit.entriesOfType FitEntry.biosStartupModule).filterMap FitEntry.dataRange? with
  | [] => .error (.fitEntryMissing FitEntry.biosStartupModule)
  | ranges => .ok ranges

end Fit

end MeasuredBoot
