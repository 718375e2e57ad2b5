import Mathlib.Data.Nat.Bitwise
import MeasuredBoot.Proofs.AddressMapper.Checked
import MeasuredBoot.Proofs.Firmware.Agreement

/-!
# Reading a Firmware Interface Table

What `Fit.read` makes of an image, told from its bytes. The pointer at the top of physical memory leads to a
header, which starts with the signature and counts the entries of the table:

* `FitEntry.StandsAt`: an entry and its 16 bytes, field by field;
* `Fit.Outcome`: the table, or the first of the four reasons why there is none;
* `Fit.readChecked`: the table is read in 64-bit words and windows of the bytes, with the entries cut off one after
  the other;
* `Fit.read_placed`: reading has this outcome, of which the table is where its addresses say, and no step of the
  reading in words goes wrong.
-/

namespace MeasuredBoot

open AddressMapper (physMem)

/-! ## Entries -/

namespace FitEntry

variable {offset : Nat}

/-- The 16 bytes at an offset, field by field. The byte between the size and the version is reserved. -/
structure StandsAt (bytes : ByteArray) (offset : Nat) (e : FitEntry) : Prop where
  address : e.address.toNat = Bytes.word bytes offset 8
  size : e.size.toNat = Bytes.word bytes (offset + 8) 3
  version : e.version.toNat = Bytes.word bytes (offset + 12) 2
  entryType : e.entryType.toNat = (Bytes.get bytes (offset + 14)).toNat % 0x80
  checksumValid : e.checksumValid = true ↔ 0x80 ≤ (Bytes.get bytes (offset + 14)).toNat
  checksum : e.checksum = Bytes.get bytes (offset + 15)

theorem toNat_and_typeMask (b : UInt8) : (b &&& 0x7F).toNat = b.toNat % 0x80 := by
  rw [UInt8.toNat_and]
  exact Nat.and_two_pow_sub_one_eq_mod b.toNat 7

theorem and_checksumBit_iff (b : UInt8) : b &&& 0x80 ≠ 0 ↔ 0x80 ≤ b.toNat := by
  have hlt := b.toNat_lt
  have hbit : (b &&& 0x80).toNat = (b.toNat.testBit 7).toNat * 2 ^ 7 := by
    rw [UInt8.toNat_and]
    exact Nat.and_two_pow b.toNat 7
  rw [ne_eq, ← UInt8.toNat_inj, hbit, Nat.testBit_eq_decide_div_mod_eq]
  simp
  omega

/-- The bytes at an offset are those of the entry that they decode to. -/
theorem standsAt_decode (bytes : ByteArray) (offset : Nat) : (decode bytes offset).StandsAt bytes offset where
  address := UInt64.toNat_ofNat_of_lt' (Bytes.word_lt ..)
  size := UInt32.toNat_ofNat_of_lt' ((Bytes.word_lt ..).trans (by decide))
  version := UInt16.toNat_ofNat_of_lt' (Bytes.word_lt ..)
  entryType := toNat_and_typeMask _
  checksumValid := by
    rw [decode, decide_eq_true_iff]
    exact and_checksumBit_iff _
  checksum := rfl

/-- They are those of one entry. -/
theorem StandsAt.eq {bytes : ByteArray} {e e' : FitEntry} (h : e.StandsAt bytes offset)
    (h' : e'.StandsAt bytes offset) : e = e' := by
  cases e
  cases e'
  simp only [FitEntry.mk.injEq]
  exact ⟨UInt64.toNat_inj.mp (h.address.trans h'.address.symm), UInt32.toNat_inj.mp (h.size.trans h'.size.symm),
    UInt16.toNat_inj.mp (h.version.trans h'.version.symm),
    UInt8.toNat_inj.mp (h.entryType.trans h'.entryType.symm),
    Bool.eq_iff_iff.mpr (h.checksumValid.trans h'.checksumValid.symm), h.checksum.trans h'.checksum.symm⟩

theorem decode_slice {bytes : ByteArray} (h : offset + byteSize ≤ bytes.size) :
    decode (Bytes.slice bytes offset byteSize) 0 = decode bytes offset :=
  decode_congr fun k hk => by rw [Nat.zero_add, Bytes.get_slice h hk]

end FitEntry

/-! ## What an image has in the places that are read -/

namespace Fit

/-- An image that ends at the top of physical memory has an address 64 bytes below. -/
structure HasPointer (image : BiosImage) (pointer : UInt64) : Prop where
  size_ge : 0x40 ≤ image.size
  size_le : image.size ≤ 0x100000000
  pointer_eq : pointer.toNat = Bytes.word image.bytes (image.size - 0x40) 8

/-- The address is that of an offset from which a header fits in the image. -/
structure HeaderAt (image : BiosImage) (pointer : UInt64) (offset : Nat) : Prop where
  place_eq : 0x100000000 - image.size + offset = pointer.toNat
  fits : offset + 16 ≤ image.size

/-- The number of entries that a header counts, itself included. -/
def countAt (image : BiosImage) (offset : Nat) : Nat := Bytes.word image.bytes (offset + 8) 3

/-- What reading the table of an image comes to: the table, or the first reason why there is none. -/
inductive Outcome (image : BiosImage) : Except SourceError Fit → Prop
  /-- The image does not reach down to the pointer, or does not fit below the top of memory. -/
  | noPointer (h : ¬(0x40 ≤ image.size ∧ image.size ≤ 0x100000000)) :
    Outcome image (.error (.imageTooSmall image.size))
  /-- No header fits where the pointer leads. -/
  | noHeader {pointer : UInt64} (hpointer : HasPointer image pointer)
    (h : ∀ offset, ¬HeaderAt image pointer offset) :
    Outcome image (.error (.fitPointerOutOfImage pointer))
  /-- The header does not start with the signature. -/
  | noSignature {pointer : UInt64} {offset : Nat} (hpointer : HasPointer image pointer)
    (hheader : HeaderAt image pointer offset)
    (h : Bytes.slice image.bytes offset 8 ≠ signature) : Outcome image (.error (.fitSignatureMismatch offset))
  /-- The header does not count itself, or more entries than fit. -/
  | noEntries {pointer : UInt64} {offset : Nat} (hpointer : HasPointer image pointer)
    (hheader : HeaderAt image pointer offset)
    (hsignature : Bytes.slice image.bytes offset 8 = signature)
    (h : ¬(1 ≤ countAt image offset ∧ offset + 16 * countAt image offset ≤ image.size)) :
    Outcome image (.error (.fitTruncated (countAt image offset)))
  /-- The entries behind the header are those that it counts. -/
  | table {fit : Fit} (hpointer : HasPointer image fit.address) (hheader : HeaderAt image fit.address fit.offset)
    (hsignature : Bytes.slice image.bytes fit.offset 8 = signature)
    (hcount : countAt image fit.offset = fit.entries.length + 1)
    (hfits : fit.offset + 16 * countAt image fit.offset ≤ image.size)
    (hentries : ∀ i (h : i < fit.entries.length), fit.entries[i].StandsAt image.bytes (fit.offset + 16 * (i + 1))) :
    Outcome image (.ok fit)

variable {image : BiosImage} {pointer : UInt64} {offset : Nat}

theorem offsetOfBytes?_pointerAddress {size : Nat} :
    physMem.offsetOfBytes? size pointerAddress pointerSize =
      if 0x40 ≤ size ∧ size ≤ 0x100000000 then some (size - 0x40) else none := by
  have htop : pointerAddress.toNat = 0xFFFFFFC0 := rfl
  refine Option.ext fun offset => ?_
  rw [AddressMapper.offsetOfBytes?_eq_some_iff, AddressMapper.offset?_physMem_eq_some_iff, htop,
    AddressMapper.memoryTop, pointerSize]
  split
  · rw [Option.some.injEq]
    omega
  · constructor <;> intro h
    · omega
    · cases h

theorem headerAt_iff (h : image.size ≤ 0x100000000) : HeaderAt image pointer offset ↔
    physMem.offsetOfBytes? image.size pointer FitEntry.byteSize = some offset := by
  rw [AddressMapper.offsetOfBytes?_eq_some_iff, AddressMapper.offset?_physMem_eq_some_iff,
    AddressMapper.memoryTop, FitEntry.byteSize]
  constructor
  · rintro ⟨hplace, hfits⟩
    omega
  · rintro ⟨⟨-, -, hplace⟩, hfits⟩
    exact ⟨hplace, hfits⟩

theorem offsetOfBytes?_eq_none (hle : image.size ≤ 0x100000000) (h : ∀ offset, ¬HeaderAt image pointer offset) :
    physMem.offsetOfBytes? image.size pointer FitEntry.byteSize = none :=
  Option.eq_none_iff_forall_ne_some.mpr fun offset => mt (headerAt_iff hle).mpr (h offset)

theorem readPointer_of_hasPointer (h : HasPointer image pointer) : readPointer image = .ok pointer := by
  rw [readPointer, offsetOfBytes?_pointerAddress, if_pos ⟨h.size_ge, h.size_le⟩]
  dsimp only
  rw [show Bytes.word image.bytes (image.size - 0x40) pointerSize = pointer.toNat from h.pointer_eq.symm]
  exact congrArg _ UInt64.ofNat_toNat

/-- The entries of a table are those that its bytes decode to. -/
theorem entries_eq {fit : Fit}
    (h : ∀ i (h : i < fit.entries.length), fit.entries[i].StandsAt image.bytes (fit.offset + 16 * (i + 1))) :
    (List.range fit.entries.length).map (fun i =>
      FitEntry.decode image.bytes (fit.offset + FitEntry.byteSize * (i + 1))) = fit.entries := by
  refine List.ext_getElem (by simp) fun i hi hi' => ?_
  rw [List.getElem_map, List.getElem_range]
  exact (FitEntry.standsAt_decode ..).eq (h i hi')

/-- Signatures are compared by their bytes. -/
theorem slice_data_eq_iff {bytes : ByteArray} :
    (Bytes.slice bytes offset signature.size).data = signature.data ↔ Bytes.slice bytes offset 8 = signature :=
  ByteArray.ext_iff.symm

theorem count_eq (image : BiosImage) (offset : Nat) :
    (FitEntry.decode image.bytes offset).size.toNat = countAt image offset :=
  (FitEntry.standsAt_decode image.bytes offset).size

/-- What is read from the header on. -/
theorem read_of_headerAt (hpointer : HasPointer image pointer) (hheader : HeaderAt image pointer offset) :
    read image =
      if (Bytes.slice image.bytes offset signature.size).data ≠ signature.data then
        .error (.fitSignatureMismatch offset)
      else if countAt image offset = 0 ∨ image.size < offset + FitEntry.byteSize * countAt image offset then
        .error (.fitTruncated (countAt image offset))
      else .ok { address := pointer, offset, entries := (List.range (countAt image offset - 1)).map fun i =>
        FitEntry.decode image.bytes (offset + FitEntry.byteSize * (i + 1)) } := by
  rw [read, readPointer_of_hasPointer hpointer, ok_bind, (headerAt_iff hpointer.size_le).mp hheader]
  simp only [count_eq]
  split
  · rfl
  · split <;> rfl

/-- Reading comes to its outcome. -/
theorem Outcome.read_eq {r : Except SourceError Fit} (h : Outcome image r) : read image = r := by
  cases h with
  | noPointer h =>
    rw [read, readPointer, offsetOfBytes?_pointerAddress, if_neg h]
    rfl
  | noHeader hpointer h =>
    rw [read, readPointer_of_hasPointer hpointer, ok_bind, offsetOfBytes?_eq_none hpointer.size_le h]
    rfl
  | noSignature hpointer hheader h =>
    rw [read_of_headerAt hpointer hheader, if_pos (mt slice_data_eq_iff.mp h)]
  | @noEntries pointer offset hpointer hheader hsignature h =>
    have hcount : countAt image offset = 0 ∨ image.size < offset + FitEntry.byteSize * countAt image offset := by
      rw [FitEntry.byteSize]
      omega
    rw [read_of_headerAt hpointer hheader, if_neg (not_not_intro (slice_data_eq_iff.mpr hsignature)), if_pos hcount]
  | @table fit hpointer hheader hsignature hcount hfits hentries =>
    have hall : ¬(countAt image fit.offset = 0 ∨
        image.size < fit.offset + FitEntry.byteSize * countAt image fit.offset) := by
      rw [FitEntry.byteSize]
      omega
    rw [read_of_headerAt hpointer hheader, if_neg (not_not_intro (slice_data_eq_iff.mpr hsignature)), if_neg hall,
      hcount, Nat.add_sub_cancel, entries_eq hentries]

/-- An image has no pointer, a pointer that leads to no header, or a header. -/
theorem header_cases (image : BiosImage) : ¬(0x40 ≤ image.size ∧ image.size ≤ 0x100000000) ∨
    ∃ pointer, HasPointer image pointer ∧
      ((∀ offset, ¬HeaderAt image pointer offset) ∨ ∃ offset, HeaderAt image pointer offset) := by
  by_cases hsize : 0x40 ≤ image.size ∧ image.size ≤ 0x100000000
  · refine .inr ⟨(Bytes.word image.bytes (image.size - 0x40) 8).toUInt64,
      ⟨hsize.1, hsize.2, UInt64.toNat_ofNat_of_lt' (Bytes.word_lt ..)⟩, ?_⟩
    rw [← not_exists]
    exact (Classical.em _).symm
  · exact .inl hsize

/-- A header that counts entries which fit has a table. -/
theorem exists_table (hpointer : HasPointer image pointer) (hheader : HeaderAt image pointer offset)
    (hsignature : Bytes.slice image.bytes offset 8 = signature) (hpos : 1 ≤ countAt image offset)
    (hfits : offset + 16 * countAt image offset ≤ image.size) : ∃ fit, Outcome image (.ok fit) := by
  refine ⟨⟨pointer, offset, (List.range (countAt image offset - 1)).map fun i =>
    FitEntry.decode image.bytes (offset + 16 * (i + 1))⟩,
    .table hpointer hheader hsignature ?_ hfits fun i hi => ?_⟩
  · simp only [List.length_map, List.length_range]
    omega
  · simp only [List.getElem_map, List.getElem_range]
    exact FitEntry.standsAt_decode ..

theorem exists_outcome (image : BiosImage) : ∃ r, Outcome image r := by
  obtain hsize | ⟨pointer, hpointer, hnone | ⟨offset, hheader⟩⟩ := header_cases image
  · exact ⟨_, .noPointer hsize⟩
  · exact ⟨_, .noHeader hpointer hnone⟩
  by_cases hsignature : Bytes.slice image.bytes offset 8 = signature
  swap
  · exact ⟨_, .noSignature hpointer hheader hsignature⟩
  by_cases hcount : 1 ≤ countAt image offset ∧ offset + 16 * countAt image offset ≤ image.size
  swap
  · exact ⟨_, .noEntries hpointer hheader hsignature hcount⟩
  obtain ⟨fit, hfit⟩ := exists_table hpointer hheader hsignature hcount.1 hcount.2
  exact ⟨.ok fit, hfit⟩

theorem outcome_read (image : BiosImage) : Outcome image (read image) := by
  obtain ⟨r, h⟩ := exists_outcome image
  rwa [h.read_eq]

/-! ## Reading in words and windows -/

/-- The address that the pointer holds. -/
def readPointerChecked (image : BiosImage) : Checked SourceError UInt64 := do
  match ← physMem.offsetOfBytesChecked image.size.toUInt64 pointerAddress pointerSize.toUInt64 with
  | none => throw (.reported (.imageTooSmall image.size))
  | some place =>
    let stop ← Checked.add place pointerSize.toUInt64
    let raw ← Checked.window image.bytes place stop
    return (Bytes.word raw 0 pointerSize).toUInt64

/-- The entries behind the header of a table. -/
def readEntriesChecked (table : ByteArray) (count : UInt64) : Checked SourceError (List FitEntry) := do
  let others ← Checked.sub count 1
  let behind ← Checked.rest table FitEntry.byteSize.toUInt64
  Checked.entries FitEntry.byteSize (FitEntry.decode · 0) others.toNat behind

/-- The table whose header is at an offset. -/
def readTableChecked (image : BiosImage) (address offset : UInt64) : Checked SourceError Fit := do
  let table ← Checked.rest image.bytes offset
  let (header, _) ← Checked.cut FitEntry.byteSize table
  if (Bytes.slice header 0 signature.size).data ≠ signature.data then
    throw (.reported (.fitSignatureMismatch offset.toNat))
  else
    let count := (FitEntry.decode header 0).size.toUInt64
    if count = 0 then throw (.reported (.fitTruncated count.toNat))
    else
      let stop ← Checked.add offset (← Checked.mul FitEntry.byteSize.toUInt64 count)
      if image.size.toUInt64 < stop then throw (.reported (.fitTruncated count.toNat))
      else return { address, offset := offset.toNat, entries := ← readEntriesChecked table count }

/-- The table of an image. -/
def readChecked (image : BiosImage) : Checked SourceError Fit := do
  let address ← readPointerChecked image
  match ← physMem.offsetOfBytesChecked image.size.toUInt64 address FitEntry.byteSize.toUInt64 with
  | none => throw (.reported (.fitPointerOutOfImage address))
  | some offset => readTableChecked image address offset

theorem readPointerChecked_of_hasPointer (h : HasPointer image pointer) :
    readPointerChecked image = .ok pointer := by
  have hsize : image.size < UInt64.size / 2 := image.size_lt
  have hwithin : image.size - 0x40 + pointerSize ≤ image.size := by
    have := h.size_ge
    rw [pointerSize]
    omega
  have hhalf : UInt64.size / 2 < UInt64.size := by decide
  have hbytes : image.bytes.size = image.size := rfl
  rw [readPointerChecked, AddressMapper.offsetOfBytesChecked_eq hsize _ (by decide), offsetOfBytes?_pointerAddress,
    if_pos ⟨h.size_ge, h.size_le⟩, ok_bind]
  dsimp only [Option.map_some]
  rw [Checked.add_toUInt64 (by omega), ok_bind, Checked.window_eq hwithin (by omega), ok_bind,
    Bytes.word_slice hwithin]
  rw [show Bytes.word image.bytes (image.size - 0x40) pointerSize = pointer.toNat from h.pointer_eq.symm]
  exact congrArg Except.ok UInt64.ofNat_toNat

/-- The entries are cut off without a fault. -/
theorem readEntriesChecked_eq {count : Nat} (hpos : 1 ≤ count)
    (h : offset + FitEntry.byteSize * count ≤ image.size) :
    readEntriesChecked (Bytes.slice image.bytes offset (image.bytes.size - offset)) count.toUInt64 =
      .ok ((List.range (count - 1)).map fun i =>
        FitEntry.decode image.bytes (offset + FitEntry.byteSize * (i + 1))) := by
  have hsize : image.bytes.size < UInt64.size / 2 := image.size_lt
  have hhalf : UInt64.size / 2 < UInt64.size := by decide
  rw [FitEntry.byteSize] at h
  have hfits : offset + 16 + 16 * (count - 1) ≤ image.bytes.size := by
    show _ ≤ image.size
    omega
  have htable : (Bytes.slice image.bytes offset (image.bytes.size - offset)).size = image.bytes.size - offset :=
    Bytes.size_slice (by omega)
  have hothers : (Checked.sub count.toUInt64 1 : Checked SourceError UInt64) = .ok (count - 1).toUInt64 :=
    Checked.sub_toUInt64 (by omega) hpos
  have hcount : (count - 1).toUInt64.toNat = count - 1 := UInt64.toNat_ofNat_of_lt' (by omega)
  have hbehind : (Checked.rest (Bytes.slice image.bytes offset (image.bytes.size - offset)) (Nat.toUInt64 16) :
      Checked SourceError ByteArray) =
        .ok (Bytes.slice image.bytes (offset + 16) (image.bytes.size - (offset + 16))) := by
    rw [Checked.rest_eq (by omega) (by omega), htable, Bytes.slice_slice (by omega) (by omega), Nat.sub_sub]
  have hdecode (place : Nat) (hplace : place + 16 ≤ image.bytes.size) :
      FitEntry.decode (Bytes.slice image.bytes place 16) 0 = FitEntry.decode image.bytes place :=
    FitEntry.decode_slice hplace
  rw [readEntriesChecked, hothers, ok_bind, FitEntry.byteSize, hbehind, ok_bind, hcount,
    Checked.entries_slice (FitEntry.decode · 0) (FitEntry.decode image.bytes) hdecode hfits]
  refine congrArg Except.ok (List.map_congr_left fun i _ => ?_)
  rw [Nat.mul_succ, Nat.add_assoc, Nat.add_comm 16]

theorem countAt_lt (image : BiosImage) (offset : Nat) : countAt image offset < 0x1000000 := Bytes.word_lt ..

theorem toNat_toUInt64_countAt : (countAt image offset).toUInt64.toNat = countAt image offset :=
  UInt64.toNat_ofNat_of_lt' ((countAt_lt ..).trans (by decide))

theorem toUInt64_count (image : BiosImage) (offset : Nat) :
    (FitEntry.decode image.bytes offset).size.toUInt64 = (countAt image offset).toUInt64 := by
  refine UInt64.toNat_inj.mp ?_
  rw [UInt32.toNat_toUInt64, count_eq, toNat_toUInt64_countAt]

/-- Entries that are counted end at a word, even if they do not fit. -/
theorem stop_lt (h : offset ≤ image.size) : offset + FitEntry.byteSize * countAt image offset < UInt64.size := by
  have hsize : image.size < UInt64.size / 2 := image.size_lt
  have hcount := countAt_lt image offset
  simp only [FitEntry.byteSize, UInt64.size] at *
  omega

/-- The header and the entries are cut off without a fault. -/
theorem readTableChecked_eq (hpointer : HasPointer image pointer) (hheader : HeaderAt image pointer offset) :
    readTableChecked image pointer offset.toUInt64 = Checked.faultless (read image) := by
  have h : offset + FitEntry.byteSize ≤ image.size := hheader.fits
  have hsize : image.bytes.size < UInt64.size / 2 := image.size_lt
  have hhalf : UInt64.size / 2 < UInt64.size := by decide
  have hbytes : image.bytes.size = image.size := rfl
  have hoffset : offset.toUInt64.toNat = offset := image.toNat_toUInt64 (by omega)
  have hsum := stop_lt (show offset ≤ image.size by omega)
  have hcount : countAt image offset < UInt64.size := (countAt_lt ..).trans (by decide)
  have hsignature : Bytes.slice (Bytes.slice image.bytes offset FitEntry.byteSize) 0 signature.size =
      Bytes.slice image.bytes offset signature.size := Bytes.slice_slice h (by decide)
  rw [read_of_headerAt hpointer hheader, readTableChecked, Checked.rest_eq (by omega) (by omega), ok_bind,
    Checked.cut_slice h, ok_bind]
  simp only [hsignature, FitEntry.decode_slice h, toUInt64_count, hoffset, toNat_toUInt64_countAt]
  split
  · rfl
  by_cases hzero : countAt image offset = 0
  · rw [hzero]
    rfl
  have hnonzero : ¬(countAt image offset).toUInt64 = 0 := by
    rw [← UInt64.toNat_inj, toNat_toUInt64_countAt]
    exact hzero
  rw [if_neg hnonzero, Checked.mul_toUInt64 (by decide) hcount (by omega), ok_bind,
    Checked.add_toUInt64 hsum, ok_bind]
  by_cases hstop : image.size < offset + FitEntry.byteSize * countAt image offset
  · rw [if_pos ((Checked.toUInt64_lt_iff (by omega) hsum).mpr hstop), if_pos (.inr hstop)]
    rfl
  · rw [if_neg (mt (Checked.toUInt64_lt_iff (by omega) hsum).mp hstop), if_neg (not_or.mpr ⟨hzero, hstop⟩),
      readEntriesChecked_eq (by omega) (by omega)]
    rfl

/-- The table is read without a fault. -/
theorem readChecked_eq (image : BiosImage) : readChecked image = Checked.faultless (read image) := by
  have hsize : image.size < UInt64.size / 2 := image.size_lt
  obtain hsmall | ⟨pointer, hpointer, hnone | ⟨offset, hheader⟩⟩ := header_cases image
  · rw [(Outcome.noPointer hsmall).read_eq, readChecked, readPointerChecked,
      AddressMapper.offsetOfBytesChecked_eq hsize _ (by decide), offsetOfBytes?_pointerAddress, if_neg hsmall]
    rfl
  · rw [(Outcome.noHeader hpointer hnone).read_eq, readChecked, readPointerChecked_of_hasPointer hpointer, ok_bind,
      AddressMapper.offsetOfBytesChecked_eq hsize _ (by decide), offsetOfBytes?_eq_none hpointer.size_le hnone]
    rfl
  · rw [readChecked, readPointerChecked_of_hasPointer hpointer, ok_bind,
      AddressMapper.offsetOfBytesChecked_eq hsize _ (by decide), (headerAt_iff hpointer.size_le).mp hheader]
    exact readTableChecked_eq hpointer hheader

/-- The addresses of a table are those of the offsets that it was read from. -/
theorem resolve_tableRange {fit : Fit} (h : read image = .ok fit) : ∃ region : Range,
    physMem.resolve (.biosImage image) [fit.tableRange] = .ok [region] ∧
      region.offset.toNat = fit.offset ∧ region.length.toNat = 16 * (fit.entries.length + 1) := by
  obtain ⟨hmapped, hsize⟩ := of_read h
  have hoffset : fit.offset.toUInt64.toNat = fit.offset := image.toNat_toUInt64 (by omega)
  have hlength : fit.tableRange.length.toNat = 16 * (fit.entries.length + 1) :=
    image.toNat_toUInt64 (Nat.le_trans (Nat.le_add_left _ _) hsize)
  refine ⟨⟨fit.offset.toUInt64, fit.tableRange.length⟩, ?_, hoffset, hlength⟩
  rw [AddressMapper.resolve, mapM_eq_ok_iff]
  refine .cons (AddressMapper.resolveRange_eq_ok_iff.mpr ⟨?_, rfl⟩) .nil
  rw [AddressMapper.offsetOfBytes?_eq_some_iff, hoffset, hlength]
  exact ⟨hmapped, hsize⟩

/-- What the table of an image is read as. Reading succeeds where the pointer leads to a header with the signature
that counts itself and entries which fit, and gives these entries field by field; otherwise it names the first of
these conditions that fails. The addresses of the table are those of the offsets that it was read from. No index
lies outside of the bytes, no sum wraps around, and the bytes do not end within an entry. -/
theorem read_placed (image : BiosImage) :
    (∀ r, read image = r ↔ Outcome image r) ∧
    ((∃ fit, read image = .ok fit) ↔ ∃ pointer offset, HasPointer image pointer ∧ HeaderAt image pointer offset ∧
      Bytes.slice image.bytes offset 8 = signature ∧ 1 ≤ countAt image offset ∧
      offset + 16 * countAt image offset ≤ image.size) ∧
    (∀ fit, read image = .ok fit → ∃ region : Range,
      physMem.resolve (.biosImage image) [fit.tableRange] = .ok [region] ∧
      region.offset.toNat = fit.offset ∧ region.length.toNat = 16 * (fit.entries.length + 1)) ∧
    readChecked image = Checked.faultless (read image) := by
  refine ⟨fun r => ⟨fun h => h ▸ outcome_read image, Outcome.read_eq⟩, ⟨?_, ?_⟩, fun fit => resolve_tableRange,
    readChecked_eq image⟩
  · rintro ⟨fit, hfit⟩
    have hread := outcome_read image
    rw [hfit] at hread
    cases hread with
    | table hpointer hheader hsignature hcount hfits _ =>
      exact ⟨_, _, hpointer, hheader, hsignature, by omega, hfits⟩
  · rintro ⟨pointer, offset, hpointer, hheader, hsignature, hpos, hfits⟩
    obtain ⟨fit, h⟩ := exists_table hpointer hheader hsignature hpos hfits
    exact ⟨fit, h.read_eq⟩

/-- The entries of a table: a region of the boot block, and a key manifest whose checksum is valid. -/
def tightEntries : List FitEntry :=
  [⟨0xFFFFFFC0, 4, 0x0100, FitEntry.biosStartupModule, false, 0⟩,
    ⟨0x1000, 0x241, 0x0100, FitEntry.keyManifest, true, 0x5A⟩]

/-- The smallest image with a pointer. The table starts behind it and ends with the image. -/
def tightImage : BiosImage where
  bytes :=
    Bytes.ofWord 0xFFFFFFD0 8 ++ Bytes.replicate 8 0 ++
      FitEntry.encode ⟨(Bytes.word signature 0 8).toUInt64, 3, 0x0100, 0, false, 0⟩ ++
      (tightEntries.map FitEntry.encode).foldl (· ++ ·) ByteArray.empty
  size_lt := by decide +kernel

/-- The table of the image is read, and lies in its last 48 bytes. -/
theorem read_placed_tightImage : Outcome tightImage (.ok ⟨0xFFFFFFD0, 0x10, tightEntries⟩) ∧
    ∃ region : Range, physMem.resolve (.biosImage tightImage) [⟨0xFFFFFFD0, 48⟩] = .ok [region] ∧
      region.offset.toNat = 0x10 ∧ region.length.toNat = 48 := by
  have hread : read tightImage = .ok ⟨0xFFFFFFD0, 0x10, tightEntries⟩ := by decide +kernel
  obtain ⟨houtcome, -, hregion, -⟩ := read_placed tightImage
  exact ⟨(houtcome _).mp hread, hregion _ hread⟩

end Fit

end MeasuredBoot
