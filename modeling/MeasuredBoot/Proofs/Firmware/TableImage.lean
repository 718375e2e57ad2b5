import MeasuredBoot.Machine
import MeasuredBoot.Proofs.Firmware.Contents

/-!
# Small images with a table

An image of 128 bytes has room for a Firmware Interface Table with one entry, at its start, and for the pointer
to the table, 64 bytes before its end. A `TableLayout` is such an image. Its table is read whatever the other
bytes are: `TableLayout.read_image`.

There are three images of this kind, with an entry for the initial boot block. The region that it points to lies
in `smallImage`, is the marker of a vendor version in `markedImage`, and lies far below `strayImage`.
-/

namespace MeasuredBoot

open AddressMapper (physMem)

@[simp] theorem FitEntry.size_encode (e : FitEntry) : e.encode.size = byteSize := by
  simp only [encode, ByteArray.size_append, Bytes.size_ofWord]
  rfl

/-- What stands in a small image with a table: the entry behind the header, the bytes between the table and the
pointer, and those behind the pointer. -/
structure TableLayout where
  entry : FitEntry
  body : ByteArray
  rest : ByteArray
  decode_encode : FitEntry.decode entry.encode 0 = entry := by decide +kernel
  size_body : body.size = 32 := by decide +kernel
  size_rest : rest.size = 56 := by decide +kernel

namespace TableLayout

variable (layout : TableLayout)

/-- The header of the table, which counts itself and the entry. -/
def header : FitEntry := ⟨(Bytes.word Fit.signature 0 8).toUInt64, 2, 0x0100, 0, false, 0⟩

/-- The address of the first byte of the image, where the table is. -/
def tableAddress : UInt64 := 0xFFFFFF80

/-- The bytes before the pointer. -/
def front : ByteArray := header.encode ++ layout.entry.encode ++ layout.body

theorem size_front : layout.front.size = 64 := by
  simp only [front, ByteArray.size_append, FitEntry.size_encode, layout.size_body, FitEntry.byteSize]

theorem size_bytes : (layout.front ++ Bytes.ofWord tableAddress.toNat 8 ++ layout.rest).size = 128 := by
  simp only [ByteArray.size_append, layout.size_front, Bytes.size_ofWord, layout.size_rest]

/-- The image of a layout. -/
def image : BiosImage where
  bytes := layout.front ++ Bytes.ofWord tableAddress.toNat 8 ++ layout.rest
  size_lt := by
    rw [layout.size_bytes]
    decide

theorem size_image : layout.image.size = 128 := layout.size_bytes

theorem bytes_image :
    layout.image.bytes = layout.front ++ (Bytes.ofWord tableAddress.toNat 8 ++ layout.rest) :=
  ByteArray.append_assoc

theorem get_front {k : Nat} (h : k < 64) : Bytes.get layout.image.bytes k = Bytes.get layout.front k := by
  rw [layout.bytes_image, Bytes.get_append_left (by rwa [layout.size_front])]

theorem get_pointer {k : Nat} (h : k < 8) :
    Bytes.get layout.image.bytes (64 + k) = Bytes.get (Bytes.ofWord tableAddress.toNat 8) k := by
  rw [layout.bytes_image, show 64 + k = layout.front.size + k by rw [layout.size_front],
    Bytes.get_append_right, Bytes.get_append_left (by rwa [Bytes.size_ofWord])]

theorem get_header {k : Nat} (h : k < 16) : Bytes.get layout.image.bytes k = Bytes.get header.encode k := by
  rw [layout.get_front (by omega), front, ByteArray.append_assoc,
    Bytes.get_append_left (by rwa [FitEntry.size_encode])]

theorem get_entry {k : Nat} (h : k < 16) :
    Bytes.get layout.image.bytes (16 + k) = Bytes.get layout.entry.encode k := by
  rw [layout.get_front (by omega), front, ByteArray.append_assoc,
    show 16 + k = header.encode.size + k by rw [FitEntry.size_encode, FitEntry.byteSize],
    Bytes.get_append_right, Bytes.get_append_left (by rwa [FitEntry.size_encode])]

theorem readPointer_image : Fit.readPointer layout.image = .ok tableAddress := by
  have hplace : physMem.offsetOfBytes? 128 Fit.pointerAddress Fit.pointerSize = some 64 := by decide
  have hword : Bytes.word layout.image.bytes 64 8 = Bytes.word (Bytes.ofWord tableAddress.toNat 8) 0 8 :=
    Bytes.word_congr fun k hk => by rw [Nat.zero_add, layout.get_pointer hk]
  rw [Fit.readPointer, layout.size_image, hplace]
  dsimp only
  rw [Fit.pointerSize, hword]
  decide

/-- The table is read, whatever the other bytes of the image are. -/
theorem read_image : Fit.read layout.image = .ok ⟨tableAddress, 0, [layout.entry]⟩ := by
  have hplace : physMem.offsetOfBytes? 128 tableAddress FitEntry.byteSize = some 0 := by decide
  have hsignature : Bytes.slice layout.image.bytes 0 8 = Bytes.slice header.encode 0 8 :=
    Bytes.slice_congr (by rw [← BiosImage.size, layout.size_image]; decide)
      (by rw [FitEntry.size_encode]; decide) fun k hk => by rw [Nat.zero_add, layout.get_header (by omega)]
  have hheader : FitEntry.decode layout.image.bytes 0 = FitEntry.decode header.encode 0 :=
    FitEntry.decode_congr fun k hk => by rw [Nat.zero_add, layout.get_header hk]
  have hentry : FitEntry.decode layout.image.bytes 16 = layout.entry :=
    (FitEntry.decode_congr fun k hk => by rw [Nat.zero_add, layout.get_entry hk]).trans layout.decode_encode
  have hcount : (FitEntry.decode header.encode 0).size.toNat = 2 := by decide
  rw [Fit.read, layout.readPointer_image, ok_bind, layout.size_image, hplace]
  dsimp only
  rw [show Fit.signature.size = 8 by decide, hsignature, if_neg (by decide), hheader, hcount, if_neg (by decide)]
  rw [← hentry]
  rfl

end TableLayout

/-! ## Images with an entry for the boot block -/

/-- An entry for a region of 16 bytes of the initial boot block. -/
def bootBlockEntry (address : UInt64) : FitEntry := ⟨address, 1, 0x0100, FitEntry.biosStartupModule, false, 0⟩

/-- A region in the image, behind the table. -/
def TableLayout.small : TableLayout where
  entry := bootBlockEntry 0xFFFFFFA0
  body := Bytes.replicate 32 0x5A
  rest := Bytes.replicate 56 0

def smallImage : BiosImage := TableLayout.small.image

/-- A region that is the marker of a vendor version. -/
def TableLayout.marked : TableLayout where
  entry := bootBlockEntry 0xFFFFFFA0
  body := VendorVersion.marker ++ Bytes.replicate 16 0
  rest := Bytes.replicate 56 0

def markedImage : BiosImage := TableLayout.marked.image

/-- A machine with this image, a policy status and a new module. -/
def markedMachine : Machine where
  artifacts := { image := some markedImage, snapshot := some { acmPolicyStatus := some 0x1032980E5B } }
  tpm := some Tpm.fresh

/-- A region far below the image. -/
def TableLayout.stray : TableLayout where
  entry := bootBlockEntry 0x1000
  body := Bytes.replicate 32 0
  rest := Bytes.replicate 56 0

def strayImage : BiosImage := TableLayout.stray.image

/-- A machine with this image, a policy status and a new module. -/
def strayMachine : Machine where
  artifacts := { image := some strayImage, snapshot := some { acmPolicyStatus := some 0x1032980E5B } }
  tpm := some Tpm.fresh

end MeasuredBoot
