import MeasuredBoot.Proofs.AddressMapper.Checked
import MeasuredBoot.Proofs.Firmware.Flash

/-!
# Reading a BIOS directory table

What `BiosDirectory.read` makes of an image and an address, told from the bytes of the image. The low 24 bits of the
address are a place in the flash window, where a header starts with a cookie and counts the entries behind it:

* `BiosDirectoryEntry.StandsAt`, `BiosDirectory.StandsAt`: entries, tables and their bytes, field by field;
* `BiosDirectory.Outcome`: the table, or the first of the three reasons why there is none;
* `BiosDirectory.readChecked`: the table is read in 64-bit words and windows of the bytes, with the entries cut off
  one after the other;
* `BiosDirectory.read_fitting`: reading has this outcome, of which the table is where its addresses say, and no
  step of the reading in words goes wrong.
-/

namespace MeasuredBoot

open AddressMapper (amdFlash)

/-! ## Entries -/

namespace BiosDirectoryEntry

variable {bytes : ByteArray} {offset : Nat}

/-- The 24 bytes at an offset, field by field. -/
structure StandsAt (bytes : ByteArray) (offset : Nat) (e : BiosDirectoryEntry) : Prop where
  entryType : e.entryType = Bytes.get bytes offset
  regionType : e.regionType = Bytes.get bytes (offset + 1)
  flags : e.flags = Bytes.get bytes (offset + 2)
  subProgram : e.subProgram = Bytes.get bytes (offset + 3)
  size : e.size.toNat = Bytes.word bytes (offset + 4) 4
  sourceAddress : e.sourceAddress.toNat = Bytes.word bytes (offset + 8) 8
  destinationAddress : e.destinationAddress.toNat = Bytes.word bytes (offset + 16) 8

/-- The bytes at an offset are those of the entry that they decode to. -/
theorem standsAt_decode (bytes : ByteArray) (offset : Nat) : (decode bytes offset).StandsAt bytes offset where
  entryType := rfl
  regionType := rfl
  flags := rfl
  subProgram := rfl
  size := UInt32.toNat_ofNat_of_lt' (Bytes.word_lt ..)
  sourceAddress := UInt64.toNat_ofNat_of_lt' (Bytes.word_lt ..)
  destinationAddress := UInt64.toNat_ofNat_of_lt' (Bytes.word_lt ..)

/-- They are those of one entry. -/
theorem StandsAt.eq {e e' : BiosDirectoryEntry} (h : e.StandsAt bytes offset) (h' : e'.StandsAt bytes offset) :
    e = e' := by
  cases e
  cases e'
  simp only [BiosDirectoryEntry.mk.injEq]
  exact ⟨h.entryType.trans h'.entryType.symm, h.regionType.trans h'.regionType.symm, h.flags.trans h'.flags.symm,
    h.subProgram.trans h'.subProgram.symm, UInt32.toNat_inj.mp (h.size.trans h'.size.symm),
    UInt64.toNat_inj.mp (h.sourceAddress.trans h'.sourceAddress.symm),
    UInt64.toNat_inj.mp (h.destinationAddress.trans h'.destinationAddress.symm)⟩

theorem decode_slice (h : offset + byteSize ≤ bytes.size) :
    decode (Bytes.slice bytes offset byteSize) 0 = decode bytes offset :=
  decode_congr fun k hk => by rw [Nat.zero_add, Bytes.get_slice h hk]

end BiosDirectoryEntry

namespace BiosDirectory

/-! ## What an image has in the places that are read -/

/-- The bytes of a table at an offset, field by field. The last four bytes of its header are reserved. -/
structure StandsAt (bytes : ByteArray) (offset : Nat) (table : BiosDirectory) : Prop where
  cookie : table.cookie.toNat = Bytes.word bytes offset 4
  checksum : table.checksum.toNat = Bytes.word bytes (offset + 4) 4
  length : table.entries.length = Bytes.word bytes (offset + 8) 4
  entries : ∀ i (h : i < table.entries.length), table.entries[i].StandsAt bytes (offset + 16 + 24 * i)

/-- The offset of an address: its low 24 bits, from the start of the last 16 MiB of the image on. -/
def place (image : BiosImage) (address : UInt64) : Nat := image.size - 0x1000000 + address.toNat % 0x1000000

/-- The number of entries that a header counts. -/
def countAt (image : BiosImage) (offset : Nat) : Nat := Bytes.word image.bytes (offset + 8) 4

/-- A header starts with the cookie of the first or the second level. -/
def HasCookie (image : BiosImage) (offset : Nat) : Prop :=
  Bytes.slice image.bytes offset 4 = "$BHD".toUTF8 ∨ Bytes.slice image.bytes offset 4 = "$BL2".toUTF8

/-- What reading the table at an address comes to: the table, or the first reason why there is none. -/
inductive Outcome (image : BiosImage) (address : UInt64) : Except SourceError BiosDirectory → Prop
  /-- No header fits at the offset of the address. -/
  | noHeader (h : ¬place image address + 16 ≤ image.size) :
    Outcome image address (.error (.biosDirectoryTruncated address.toNat))
  /-- The header does not start with a cookie. -/
  | noCookie {cookie : UInt32} (hheader : place image address + 16 ≤ image.size)
    (h : ¬HasCookie image (place image address))
    (hcookie : cookie.toNat = Bytes.word image.bytes (place image address) 4) :
    Outcome image address (.error (.biosDirectoryCookieInvalid (place image address) cookie))
  /-- The header counts more entries than fit. -/
  | noEntries (hheader : place image address + 16 ≤ image.size) (hcookie : HasCookie image (place image address))
    (h : ¬place image address + 16 + 24 * countAt image (place image address) ≤ image.size) :
    Outcome image address (.error (.biosDirectoryTruncated (place image address)))
  /-- The entries behind the header are those that it counts. -/
  | table {table : BiosDirectory} (hheader : place image address + 16 ≤ image.size)
    (hcookie : HasCookie image (place image address))
    (hfits : place image address + 16 + 24 * countAt image (place image address) ≤ image.size)
    (haddress : table.address = address) (htable : table.StandsAt image.bytes (place image address)) :
    Outcome image address (.ok table)

variable {image : BiosImage} {address : UInt64} {offset count : Nat}

/-- The bytes at an offset are those of a decoded table, and of no other table at the address. -/
theorem standsAt_decode (h : countAt image offset = count) :
    (decode image.bytes offset address count).StandsAt image.bytes offset where
  cookie := UInt32.toNat_ofNat_of_lt' (Bytes.word_lt ..)
  checksum := UInt32.toNat_ofNat_of_lt' (Bytes.word_lt ..)
  length := (length_entries_decode ..).trans h.symm
  entries := fun i hi => by
    simp only [decode, List.getElem_map, List.getElem_range]
    rw [Nat.add_assoc]
    exact BiosDirectoryEntry.standsAt_decode ..

theorem StandsAt.eq {bytes : ByteArray} {table table' : BiosDirectory} (h : table.StandsAt bytes offset)
    (h' : table'.StandsAt bytes offset) (haddress : table.address = table'.address) : table = table' := by
  have hentries : table.entries = table'.entries :=
    List.ext_getElem (h.length.trans h'.length.symm) fun i hi hi' => (h.entries i hi).eq (h'.entries i hi')
  cases table
  cases table'
  simp only [BiosDirectory.mk.injEq]
  exact ⟨haddress, UInt32.toNat_inj.mp (h.cookie.trans h'.cookie.symm),
    UInt32.toNat_inj.mp (h.checksum.trans h'.checksum.symm), hentries⟩

theorem offsetOfBytes?_eq : amdFlash.offsetOfBytes? image.size address headerSize =
    if place image address + 16 ≤ image.size then some (place image address) else none := by
  have hplace : AddressMapper.windowStart image.size + address.toNat % AddressMapper.flashWindow =
      place image address := by
    rw [AddressMapper.windowStart_eq, place, AddressMapper.flashWindow]
  refine Option.ext fun offset => ?_
  rw [AddressMapper.offsetOfBytes?_eq_some_iff, AddressMapper.offset?_amdFlash_eq_some_iff, hplace, headerSize]
  split
  · rw [Option.some.injEq]
    omega
  · constructor <;> intro h
    · omega
    · cases h

/-- Four bytes are a marker exactly if they are so as a number. -/
theorem slice_eq_iff {bytes marker : ByteArray} (h : offset + 4 ≤ bytes.size) (hmarker : marker.size = 4) :
    Bytes.slice bytes offset 4 = marker ↔ Bytes.word bytes offset 4 = Bytes.word marker 0 4 := by
  constructor
  · rintro rfl
    exact (Bytes.word_slice h).symm
  · intro hword
    rw [← Bytes.ofWord_word (Bytes.size_slice h), Bytes.word_slice h, hword, Bytes.ofWord_word hmarker]

theorem isCookie_iff (h : offset + 16 ≤ image.size) :
    isCookie (Bytes.word image.bytes offset 4).toUInt32 = true ↔ HasCookie image offset := by
  have hin : offset + 4 ≤ image.bytes.size := Nat.le_trans (by omega) h
  have hword : (Bytes.word image.bytes offset 4).toUInt32.toNat = Bytes.word image.bytes offset 4 :=
    UInt32.toNat_ofNat_of_lt' (Bytes.word_lt ..)
  have hfirst : Bytes.word "$BHD".toUTF8 0 4 = level1Cookie.toNat := by decide +kernel
  have hsecond : Bytes.word "$BL2".toUTF8 0 4 = level2Cookie.toNat := by decide +kernel
  rw [HasCookie, slice_eq_iff hin (by decide +kernel), slice_eq_iff hin (by decide +kernel), hfirst, hsecond,
    isCookie, Bool.or_eq_true, beq_iff_eq, beq_iff_eq, ← UInt32.toNat_inj, ← UInt32.toNat_inj, hword]

/-- What is read from the header on. -/
theorem read_of_header (h : place image address + 16 ≤ image.size) : read image address =
    if isCookie (Bytes.word image.bytes (place image address) 4).toUInt32 = false then
      .error (.biosDirectoryCookieInvalid (place image address)
        (Bytes.word image.bytes (place image address) 4).toUInt32)
    else if image.size < place image address + byteSize (countAt image (place image address)) then
      .error (.biosDirectoryTruncated (place image address))
    else .ok (decode image.bytes (place image address) address (countAt image (place image address))) := by
  rw [read, offsetOfBytes?_eq, if_pos h]
  simp only [Bool.not_eq_true']
  rfl

/-- Reading comes to its outcome. -/
theorem Outcome.read_eq {r : Except SourceError BiosDirectory} (h : Outcome image address r) :
    read image address = r := by
  have hbyteSize (count : Nat) : byteSize count = 16 + 24 * count := rfl
  cases h with
  | noHeader h =>
    rw [read, offsetOfBytes?_eq, if_neg h]
  | @noCookie cookie hheader h hcookie =>
    have hsame : (Bytes.word image.bytes (place image address) 4).toUInt32 = cookie := by
      rw [← hcookie]
      exact UInt32.ofNat_toNat
    have hfalse := Bool.eq_false_iff.mpr (mt (isCookie_iff hheader).mp h)
    rw [read_of_header hheader, if_pos hfalse, hsame]
  | noEntries hheader hcookie h =>
    rw [read_of_header hheader, (isCookie_iff hheader).mpr hcookie, if_neg Bool.noConfusion, hbyteSize,
      if_pos (by omega)]
  | table hheader hcookie hfits haddress htable =>
    rw [read_of_header hheader, (isCookie_iff hheader).mpr hcookie, if_neg Bool.noConfusion, hbyteSize,
      if_neg (by omega)]
    exact congrArg Except.ok ((standsAt_decode rfl).eq htable haddress.symm)

theorem outcome_read (image : BiosImage) (address : UInt64) : Outcome image address (read image address) := by
  have hexists : ∃ r, Outcome image address r := by
    by_cases hheader : place image address + 16 ≤ image.size
    swap
    · exact ⟨_, .noHeader hheader⟩
    by_cases hcookie : HasCookie image (place image address)
    swap
    · exact ⟨_, .noCookie hheader hcookie (UInt32.toNat_ofNat_of_lt' (Bytes.word_lt ..))⟩
    by_cases hfits : place image address + 16 + 24 * countAt image (place image address) ≤ image.size
    · exact ⟨_, .table hheader hcookie hfits rfl (standsAt_decode rfl)⟩
    · exact ⟨_, .noEntries hheader hcookie hfits⟩
  obtain ⟨r, h⟩ := hexists
  rwa [h.read_eq]

/-! ## Reading in words and windows -/

/-- The table whose header is at an offset. -/
def readTableChecked (image : BiosImage) (address offset : UInt64) : Checked SourceError BiosDirectory := do
  let (header, behind) ← Checked.cut headerSize (← Checked.rest image.bytes offset)
  let cookie := (Bytes.word header 0 4).toUInt32
  if isCookie cookie = false then throw (.reported (.biosDirectoryCookieInvalid offset.toNat cookie))
  else
    let total := (Bytes.word header 8 4).toUInt64
    let length ← Checked.mul BiosDirectoryEntry.byteSize.toUInt64 total
    let stop ← Checked.add (← Checked.add offset headerSize.toUInt64) length
    if image.size.toUInt64 < stop then throw (.reported (.biosDirectoryTruncated offset.toNat))
    else
      let entries ← Checked.entries BiosDirectoryEntry.byteSize (BiosDirectoryEntry.decode · 0) total.toNat behind
      return { address, cookie, checksum := (Bytes.word header 4 4).toUInt32, entries }

/-- The table at an address of an image. -/
def readChecked (image : BiosImage) (address : UInt64) : Checked SourceError BiosDirectory := do
  match ← amdFlash.offsetOfBytesChecked image.size.toUInt64 address headerSize.toUInt64 with
  | none => throw (.reported (.biosDirectoryTruncated address.toNat))
  | some offset => readTableChecked image address offset

theorem countAt_lt (image : BiosImage) (offset : Nat) : countAt image offset < UInt32.size := Bytes.word_lt ..

/-- The fields of a header that was cut off. -/
theorem word_header {bytes : ByteArray} {inner : Nat} (h : offset + headerSize ≤ bytes.size)
    (hinner : inner + 4 ≤ headerSize) :
    Bytes.word (Bytes.slice bytes offset headerSize) inner 4 = Bytes.word bytes (offset + inner) 4 :=
  Bytes.word_congr fun k hk => by rw [Bytes.get_slice h (by omega), Nat.add_assoc]

/-- Entries that are counted end at a word, even if they do not fit. -/
theorem stop_lt (h : offset + headerSize ≤ image.size) :
    offset + headerSize + BiosDirectoryEntry.byteSize * countAt image offset < UInt64.size := by
  have hsize : image.size < UInt64.size / 2 := image.size_lt
  have hcount := countAt_lt image offset
  simp only [headerSize, BiosDirectoryEntry.byteSize, UInt64.size, UInt32.size] at *
  omega

/-- The header and the entries are cut off without a fault. -/
theorem readTableChecked_eq (h : place image address + 16 ≤ image.size) :
    readTableChecked image address (place image address).toUInt64 = Checked.faultless (read image address) := by
  rw [read_of_header h]
  -- From here on, only the offset matters, and not the address that leads to it.
  generalize place image address = offset at h ⊢
  have hsize : image.bytes.size < UInt64.size / 2 := image.size_lt
  have hhalf : UInt64.size / 2 < UInt64.size := by decide
  have hbytes : image.bytes.size = image.size := rfl
  have hin : offset + headerSize ≤ image.bytes.size := h
  have hoffset : offset.toUInt64.toNat = offset := image.toNat_toUInt64 (by omega)
  have hsum : offset + headerSize + BiosDirectoryEntry.byteSize * countAt image offset < UInt64.size := stop_lt h
  have hcountSize : countAt image offset < UInt64.size := (countAt_lt ..).trans (by decide)
  have hcountWord : (countAt image offset).toUInt64.toNat = countAt image offset :=
    UInt64.toNat_ofNat_of_lt' hcountSize
  have hstop : offset + byteSize (countAt image offset) =
      offset + headerSize + BiosDirectoryEntry.byteSize * countAt image offset := by
    rw [byteSize, Nat.add_assoc]
  have hcount : Bytes.word image.bytes (offset + 8) 4 = countAt image offset := rfl
  have hlength : (Checked.mul BiosDirectoryEntry.byteSize.toUInt64 (countAt image offset).toUInt64 :
      Checked SourceError UInt64) = .ok _ := Checked.mul_toUInt64 (by decide) hcountSize (by omega)
  have hbehind : (Checked.add offset.toUInt64 headerSize.toUInt64 : Checked SourceError UInt64) = .ok _ :=
    Checked.add_toUInt64 (by omega)
  rw [readTableChecked, Checked.rest_eq (by omega) (by omega), ok_bind, Checked.cut_slice hin, ok_bind]
  dsimp only
  rw [word_header hin (show 0 + 4 ≤ headerSize by decide), word_header hin (show 8 + 4 ≤ headerSize by decide),
    word_header hin (show 4 + 4 ≤ headerSize by decide), Nat.add_zero, hoffset, hstop, hcount,
    hcountWord, hlength, hbehind, ok_bind, ok_bind, Checked.add_toUInt64 hsum, ok_bind]
  split
  · rfl
  by_cases hfits : image.size < offset + headerSize + BiosDirectoryEntry.byteSize * countAt image offset
  · rw [if_pos hfits, if_pos ((Checked.toUInt64_lt_iff (by omega) hsum).mpr hfits)]
    rfl
  · rw [if_neg hfits, if_neg (mt (Checked.toUInt64_lt_iff (by omega) hsum).mp hfits),
      Checked.entries_slice (BiosDirectoryEntry.decode · 0) (BiosDirectoryEntry.decode image.bytes)
        (fun _ => BiosDirectoryEntry.decode_slice) (by omega), ok_bind]
    simp only [decode, byteSize, Nat.add_assoc]
    rfl

/-- The table is read without a fault. -/
theorem readChecked_eq (image : BiosImage) (address : UInt64) :
    readChecked image address = Checked.faultless (read image address) := by
  have hsize : image.size < UInt64.size / 2 := image.size_lt
  rw [readChecked, AddressMapper.offsetOfBytesChecked_eq hsize address (by decide), ok_bind, offsetOfBytes?_eq]
  by_cases hheader : place image address + 16 ≤ image.size
  · rw [if_pos hheader]
    exact readTableChecked_eq hheader
  · rw [if_neg hheader, (Outcome.noHeader hheader).read_eq]
    rfl

/-- The addresses of a table are those of the offsets that it was read from. -/
theorem resolve_range {table : BiosDirectory} (h : read image address = .ok table) : ∃ region : Range,
    amdFlash.resolve (.biosImage image) [table.range] = .ok [region] ∧
      region.offset.toNat = place image address ∧ region.length.toNat = 16 + 24 * table.entries.length := by
  have haddress := address_of_read h
  have hlength : table.range.length.toNat = byteSize table.entries.length :=
    image.toNat_toUInt64 (byteSize_le_of_read h)
  have hread := outcome_read image address
  rw [h] at hread
  cases hread with
  | table hheader hcookie hfits _ htable =>
    have hcount : table.entries.length = countAt image (place image address) := htable.length
    have hoffset : (place image address).toUInt64.toNat = place image address := image.toNat_toUInt64 (by omega)
    refine ⟨⟨(place image address).toUInt64, table.range.length⟩, ?_, hoffset, hlength⟩
    rw [AddressMapper.resolve, mapM_eq_ok_iff]
    refine .cons (AddressMapper.resolveRange_eq_ok_iff.mpr ⟨?_, rfl⟩) .nil
    have hmapped : amdFlash.offsetOfBytes? image.size address headerSize = some (place image address) := by
      rw [offsetOfBytes?_eq, if_pos hheader]
    rw [AddressMapper.offsetOfBytes?_eq_some_iff, hoffset, hlength, range, haddress]
    refine ⟨(AddressMapper.offsetOfBytes?_eq_some_iff.mp hmapped).1, ?_⟩
    show place image address + (16 + 24 * table.entries.length) ≤ image.size
    omega

/-- What the table at an address is read as. Reading succeeds where a header with a cookie and all entries that
it counts fit in the image, and gives these entries field by field; otherwise it names the first of these
conditions that fails. The addresses of the table are those of the offsets that it was read from. No index lies
outside of the bytes, no sum wraps around, and the bytes do not end within an entry. -/
theorem read_fitting (image : BiosImage) (address : UInt64) :
    (∀ r, read image address = r ↔ Outcome image address r) ∧
    ((∃ table, read image address = .ok table) ↔ place image address + 16 ≤ image.size ∧
      HasCookie image (place image address) ∧
      place image address + 16 + 24 * countAt image (place image address) ≤ image.size) ∧
    (∀ table, read image address = .ok table → ∃ region : Range,
      amdFlash.resolve (.biosImage image) [table.range] = .ok [region] ∧
      region.offset.toNat = place image address ∧ region.length.toNat = 16 + 24 * table.entries.length) ∧
    readChecked image address = Checked.faultless (read image address) := by
  refine ⟨fun r => ⟨fun h => h ▸ outcome_read image address, Outcome.read_eq⟩, ⟨?_, ?_⟩,
    fun table => resolve_range, readChecked_eq image address⟩
  · rintro ⟨table, htable⟩
    have hread := outcome_read image address
    rw [htable] at hread
    cases hread with
    | table hheader hcookie hfits => exact ⟨hheader, hcookie, hfits⟩
  · rintro ⟨hheader, hcookie, hfits⟩
    exact ⟨_, (Outcome.table hheader hcookie hfits rfl (standsAt_decode rfl)).read_eq⟩

/-- A table of the second level with one entry. -/
def tightTable (address : UInt64) : BiosDirectory :=
  ⟨address, level2Cookie, 0x1234, [⟨0x62, 1, 2, 3, 0x10000, 0xFF040000, 0x76000000⟩]⟩

/-- An image that is a table. -/
def tightFlash : BiosImage where
  bytes := (tightTable 0).encode
  size_lt := by decide +kernel

/-- The table is read through addresses in any window of the flash, and lies in the 40 bytes of the image. -/
theorem read_fitting_tightFlash : Outcome tightFlash 0x12000000 (.ok (tightTable 0x12000000)) ∧
    ∃ region : Range, amdFlash.resolve (.biosImage tightFlash) [⟨0x12000000, 40⟩] = .ok [region] ∧
      region.offset.toNat = 0 ∧ region.length.toNat = 40 := by
  have hread : read tightFlash 0x12000000 = .ok (tightTable 0x12000000) := by decide +kernel
  have hplace : place tightFlash 0x12000000 = 0 := by decide +kernel
  obtain ⟨houtcome, -, hregion, -⟩ := read_fitting tightFlash 0x12000000
  rw [← hplace]
  exact ⟨(houtcome _).mp hread, hregion _ hread⟩

end BiosDirectory

end MeasuredBoot
