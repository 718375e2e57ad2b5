import MeasuredBoot.Proofs.Bytes.Words
import MeasuredBoot.Proofs.Firmware.Contents

/-!
# Small flash images

The smallest image that can have an Embedded Firmware Structure ends with one at the last of the well-known
offsets. A `FlashLayout` is such an image, with some content and zeros before the structure. What is read from
it is what can be read from the content and from the structure alone:

* `FlashLayout.find_image`: the structure is found;
* `FlashLayout.read_image`: a table that lies in the content is read at its addresses;
* `FlashLayout.read_fit_image`: no Firmware Interface Table is found.

`plainFlash` is such an image with one table.
-/

namespace MeasuredBoot

open AddressMapper (amdFlash physMem)

/-- What stands in a small flash image: some bytes from offset 0x100 on, and an Embedded Firmware Structure in
the last bytes. -/
structure FlashLayout where
  content : ByteArray
  efs : EmbeddedFirmware
  content_fits : content.size ≤ 0x1FF00
  efs_fits : efs.encode.size = EmbeddedFirmware.byteSize

/-- An entry is made of its bytes. -/
theorem BiosDirectoryEntry.decode_congr {a b : ByteArray} {i j : Nat}
    (h : ∀ k < byteSize, Bytes.get a (i + k) = Bytes.get b (j + k)) : decode a i = decode b j := by
  have hword (inner width : Nat) (hin : inner + width ≤ 24) :
      Bytes.word a (i + inner) width = Bytes.word b (j + inner) width := by
    refine Bytes.word_congr fun k hk => ?_
    rw [Nat.add_assoc, Nat.add_assoc]
    exact h (inner + k) (show inner + k < 24 by omega)
  have hfirst := h 0 (by decide)
  rw [Nat.add_zero, Nat.add_zero] at hfirst
  rw [decode, decode, hfirst, h 1 (by decide), h 2 (by decide), h 3 (by decide), hword 4 4 (by decide),
    hword 8 8 (by decide), hword 16 8 (by decide)]

/-- A table is made of the bytes of its header and entries. -/
theorem BiosDirectory.decode_congr {a b : ByteArray} {i j count : Nat} (address : UInt64)
    (h : ∀ k < byteSize count, Bytes.get a (i + k) = Bytes.get b (j + k)) :
    decode a i address count = decode b j address count := by
  have hword {inner width : Nat} (hinner : inner + width ≤ byteSize count) :
      Bytes.word a (i + inner) width = Bytes.word b (j + inner) width :=
    Bytes.word_congr fun k hk => by rw [Nat.add_assoc, Nat.add_assoc, h (inner + k) (by omega)]
  have hentries : (List.range count).map (fun k => BiosDirectoryEntry.decode a (i + byteSize k)) =
      (List.range count).map fun k => BiosDirectoryEntry.decode b (j + byteSize k) := by
    refine List.map_congr_left fun k hk => BiosDirectoryEntry.decode_congr fun inner hinner => ?_
    have hk := List.mem_range.mp hk
    rw [Nat.add_assoc, Nat.add_assoc, h]
    simp only [byteSize, BiosDirectoryEntry.byteSize] at hinner ⊢
    omega
  have hheader : 16 ≤ byteSize count := Nat.le_add_right 16 _
  have hcookie : Bytes.word a (i + 0) 4 = Bytes.word b (j + 0) 4 := hword (by omega)
  rw [decode, decode, hentries, ← Nat.add_zero i, ← Nat.add_zero j, hcookie, Nat.add_zero, Nat.add_zero,
    hword (by omega)]

namespace FlashLayout

variable (layout : FlashLayout)

/-- The zeros and the content. -/
def front : ByteArray := Bytes.splice (Bytes.replicate 0x20024 0) 0x100 layout.content

theorem content_within : 0x100 + layout.content.size ≤ (Bytes.replicate 0x20024 0).size := by
  have hfits := layout.content_fits
  rw [Bytes.size_replicate]
  omega

theorem size_front : layout.front.size = 0x20024 := by
  rw [front, Bytes.size_splice layout.content_within, Bytes.size_replicate]

theorem efs_within : 0x20000 + layout.efs.encode.size ≤ layout.front.size := by
  rw [layout.size_front, layout.efs_fits, EmbeddedFirmware.byteSize]

theorem size_bytes : (Bytes.splice layout.front 0x20000 layout.efs.encode).size = 0x20024 := by
  rw [Bytes.size_splice layout.efs_within, layout.size_front]

/-- The image of a layout. -/
def image : BiosImage where
  bytes := Bytes.splice layout.front 0x20000 layout.efs.encode
  size_lt := by
    rw [layout.size_bytes]
    decide

theorem size_image : layout.image.size = 0x20024 := layout.size_bytes

theorem get_efs {k : Nat} (h : k < 36) :
    Bytes.get layout.image.bytes (0x20000 + k) = Bytes.get layout.efs.encode k := by
  rw [image, Bytes.get_splice layout.efs_within, layout.efs_fits, EmbeddedFirmware.byteSize,
    if_pos (by omega), Nat.add_sub_cancel_left]

theorem word_efs {inner width : Nat} (h : inner + width ≤ 36) :
    Bytes.word layout.image.bytes (0x20000 + inner) width = Bytes.word layout.efs.encode inner width :=
  Bytes.word_congr fun k hk => by rw [Nat.add_assoc, layout.get_efs (by omega)]

theorem get_content {k : Nat} (h : k < layout.content.size) :
    Bytes.get layout.image.bytes (0x100 + k) = Bytes.get layout.content k := by
  have hfits := layout.content_fits
  rw [image, Bytes.get_splice layout.efs_within, if_neg (by omega), front, Bytes.get_splice layout.content_within,
    if_pos (by omega), Nat.add_sub_cancel_left]

/-- The bytes between the content and the structure are zero. -/
theorem get_gap {k : Nat} (h : 0x100 + layout.content.size ≤ k) (hk : k < 0x20000) :
    Bytes.get layout.image.bytes k = 0 := by
  rw [image, Bytes.get_splice layout.efs_within, if_neg (by omega), front,
    Bytes.get_splice layout.content_within, if_neg (by omega), Bytes.replicate, Bytes.get_tabulate,
    if_pos (by omega)]

theorem word_content {inner width : Nat} (h : inner + width ≤ layout.content.size) :
    Bytes.word layout.image.bytes (0x100 + inner) width = Bytes.word layout.content inner width :=
  Bytes.word_congr fun k hk => by rw [Nat.add_assoc, layout.get_content (by omega)]

theorem decode_efs : EmbeddedFirmware.decode layout.image.bytes 0x20000 =
    { EmbeddedFirmware.decode layout.efs.encode 0 with offset := 0x20000 } := by
  have hword {inner : Nat} (hinner : inner + 4 ≤ 36) :
      Bytes.word layout.image.bytes (0x20000 + inner) 4 = Bytes.word layout.efs.encode (0 + inner) 4 := by
    rw [layout.word_efs hinner, Nat.zero_add]
  simp only [EmbeddedFirmware.decode, List.map_cons, List.map_nil]
  rw [hword (by decide), hword (by decide), hword (by decide), hword (by decide)]

/-- The structure is found at the last of the well-known offsets; the image ends before the others. -/
theorem find_image (hsignature : Bytes.word layout.efs.encode 0 4 = EmbeddedFirmware.signature)
    (hefs : { EmbeddedFirmware.decode layout.efs.encode 0 with offset := 0x20000 } = layout.efs) :
    EmbeddedFirmware.find layout.image = .ok layout.efs := by
  have hwindow : AddressMapper.windowStart layout.image.size = 0 := by
    rw [layout.size_image]
    decide
  have habove {offset : Nat} (h : 0x20000 < offset) :
      ¬EmbeddedFirmware.standsAt layout.image offset = true := by
    rw [EmbeddedFirmware.standsAt, layout.size_image, Bool.and_eq_true, decide_eq_true_iff,
      EmbeddedFirmware.byteSize]
    omega
  have hhere : EmbeddedFirmware.standsAt layout.image 0x20000 = true := by
    have hword : Bytes.word layout.image.bytes (0x20000 + 0) 4 = _ := layout.word_efs (by decide)
    rw [Nat.add_zero, hsignature] at hword
    rw [EmbeddedFirmware.standsAt, layout.size_image, hword]
    decide
  have hfind : (EmbeddedFirmware.wellKnownOffsets.map (0 + ·)).find?
      (EmbeddedFirmware.standsAt layout.image) = some 0x20000 := by
    rw [EmbeddedFirmware.wellKnownOffsets, List.find?_eq_some_iff_append]
    refine ⟨hhere, [0xFA0000, 0xF20000, 0xE20000, 0xC20000, 0x820000], [], rfl, fun offset hoffset => ?_⟩
    rw [Bool.not_eq_true', ← Bool.not_eq_true]
    exact habove (by revert offset; decide)
  rw [EmbeddedFirmware.find_eq]
  dsimp only
  rw [hwindow, hfind]
  dsimp only
  rw [layout.decode_efs, hefs]

/-- A table that lies in the content is read at each address of it. -/
theorem read_image {address : UInt64} {table : BiosDirectory} (inner : Nat)
    (hoffset : amdFlash.offsetOfBytes? 0x20024 address BiosDirectory.headerSize = some (0x100 + inner))
    (hcookie : BiosDirectory.isCookie (Bytes.word layout.content inner 4).toUInt32 = true)
    (hin : inner + BiosDirectory.byteSize (Bytes.word layout.content (inner + 8) 4) ≤ layout.content.size)
    (htable : BiosDirectory.decode layout.content inner address (Bytes.word layout.content (inner + 8) 4) = table) :
    BiosDirectory.read layout.image address = .ok table := by
  have hheader : inner + 16 ≤ layout.content.size := by
    simp only [BiosDirectory.byteSize, BiosDirectory.headerSize] at hin
    omega
  have hfits := layout.content_fits
  have hcount : Bytes.word layout.image.bytes (0x100 + inner + 8) 4 = Bytes.word layout.content (inner + 8) 4 := by
    rw [Nat.add_assoc, layout.word_content (by omega)]
  refine BiosDirectory.read_eq_ok_iff.mpr ⟨0x100 + inner, ?_, ?_, ?_, ?_⟩
  · rw [layout.size_image, hoffset]
  · rw [layout.word_content (by omega), hcookie]
  · rw [layout.size_image, hcount]
    omega
  · rw [hcount, ← htable]
    exact BiosDirectory.decode_congr address fun k hk => by rw [Nat.add_assoc, layout.get_content (by omega)]

/-- No Firmware Interface Table is found where the place of the pointer to one is free. -/
theorem read_fit_image (hfree : layout.content.size ≤ 0x1FEE4) :
    Fit.read layout.image = .error (.fitPointerOutOfImage 0) := by
  have hplace : physMem.offsetOfBytes? 0x20024 Fit.pointerAddress Fit.pointerSize = some 0x1FFE4 := by decide
  have hnowhere : physMem.offsetOfBytes? 0x20024 0 FitEntry.byteSize = none := by decide
  have hzeros : Bytes.word layout.image.bytes 0x1FFE4 8 = Bytes.word (Bytes.replicate 8 0) 0 8 := by
    refine Bytes.word_congr fun k hk => ?_
    rw [layout.get_gap (by omega) (by omega), Bytes.replicate, Bytes.get_tabulate, if_pos (by omega)]
  have hpointer : Fit.readPointer layout.image = .ok 0 := by
    rw [Fit.readPointer, layout.size_image, hplace]
    dsimp only
    rw [Fit.pointerSize, hzeros]
    decide
  rw [Fit.read, hpointer, ok_bind, layout.size_image, hnowhere]
  rfl

end FlashLayout

/-! ## A flash image with a table -/

/-- A structure that points to a table. -/
def plainEfs : EmbeddedFirmware := ⟨0x20000, 0, [0x100, 0, 0]⟩

/-- A table without entries. -/
def plainTable : BiosDirectory := ⟨0x100, BiosDirectory.level1Cookie, 0, []⟩

/-- The table at its offset, and the structure behind it. -/
def plainLayout : FlashLayout where
  content := plainTable.encode
  efs := plainEfs
  content_fits := by decide +kernel
  efs_fits := by decide +kernel

def plainFlash : BiosImage := plainLayout.image

theorem find_plainFlash : EmbeddedFirmware.find plainFlash = .ok plainEfs :=
  plainLayout.find_image (by decide +kernel) (by decide +kernel)

theorem read_fit_plainFlash : Fit.read plainFlash = .error (.fitPointerOutOfImage 0) :=
  plainLayout.read_fit_image (by decide +kernel)

theorem read_plainFlash : BiosDirectory.read plainFlash 0x100 = .ok plainTable :=
  plainLayout.read_image 0 (by decide) (by decide +kernel) (by decide +kernel) (by decide +kernel)

theorem ofImage_plainFlash : BiosDirectory.ofImage plainFlash = .ok [plainTable] := by
  have hall : BiosDirectory.readAll plainFlash [] [0x100] = .ok [plainTable] :=
    (BiosDirectory.readAll_of_read rfl read_plainFlash).trans (BiosDirectory.readAll_nil _)
  rw [BiosDirectory.ofImage, find_plainFlash, ok_bind, show plainEfs.directoryAddresses = [0x100] by decide, hall]
  rfl

end MeasuredBoot
