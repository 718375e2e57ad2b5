import MeasuredBoot.Proofs.Artifact.Alike
import MeasuredBoot.Proofs.Reference.Bytes

/-!
# The bytes of firmware structures

What a flow measures is found by a probe, and given by reference. This module says which bytes of the image
these are, structure by structure:

* `Fit.bytes`, `Fit.BootBlock`: the Firmware Interface Table, and the initial boot block region by region;
* `BiosDirectory.HasBytes`: the header and the entries of a BIOS directory table;
* `Fit.of_read`, `BiosDirectory.read_of_ofImage`: what is read lies within the image;
* `DataSource.of_fetch_pcr0Data` and those after it: the bytes of each probe, if it has any.
-/

namespace MeasuredBoot

open AddressMapper (physMem amdFlash)

variable {as : Artifacts} {image : BiosImage}

theorem BiosImage.toNat_toUInt64 {n : Nat} (h : n ≤ image.size) : n.toUInt64.toNat = n :=
  UInt64.toNat_ofNat_of_lt' (Nat.lt_of_le_of_lt h (Nat.lt_trans image.size_lt (by decide)))

/-! ## Firmware Interface Table -/

namespace FitEntry

/-- An entry is made of its bytes. -/
theorem decode_congr {a b : ByteArray} {i j : Nat}
    (h : ∀ k < byteSize, Bytes.get a (i + k) = Bytes.get b (j + k)) : decode a i = decode b j := by
  have hword (inner width : Nat) (hin : inner + width ≤ 16) :
      Bytes.word a (i + inner) width = Bytes.word b (j + inner) width := by
    refine Bytes.word_congr fun k hk => ?_
    rw [Nat.add_assoc, Nat.add_assoc]
    exact h (inner + k) (show inner + k < 16 by omega)
  have haddress := hword 0 8 (by decide)
  rw [Nat.add_zero, Nat.add_zero] at haddress
  rw [decode, decode, haddress, hword 8 3 (by decide), hword 12 2 (by decide), h 14 (by decide),
    h 15 (by decide)]

/-- The entry points to a region of the boot block, of so many units of 16 bytes, which lies in the image. -/
def PointsTo (image : BiosImage) (e : FitEntry) (region : Range) : Prop :=
  physMem.offsetOfBytes? image.size e.address (16 * e.size.toNat) = some region.offset.toNat ∧
    region.length.toNat = 16 * e.size.toNat

theorem toNat_regionSize (e : FitEntry) : (e.size.toUInt64 * 16).toNat = 16 * e.size.toNat := by
  have hlt := e.size.toNat_lt
  rw [UInt64.toNat_mul, UInt32.toNat_toUInt64, Nat.mod_eq_of_lt]
  · exact Nat.mul_comm _ _
  · rw [show (16 : UInt64).toNat = 16 from rfl]
    omega

theorem pointsTo_of_toNative {e : FitEntry} {region : Range}
    (h : (⟨.biosImage, some physMem⟩ : AddressSpace).toNative (.biosImage image)
      ⟨e.address, e.size.toUInt64 * 16⟩ = .ok region) : e.PointsTo image region := by
  have hlength := e.toNat_regionSize
  obtain ⟨hoffset, hsame⟩ := AddressMapper.resolveRange_eq_ok_iff.mp h
  rw [hlength] at hoffset
  exact ⟨hoffset, hsame ▸ hlength⟩

end FitEntry

namespace Fit

variable {fit : Fit}

/-- The bytes of a table, 16 of them for the header and for each entry. -/
def bytes (fit : Fit) (image : BiosImage) : ByteArray :=
  Bytes.slice image.bytes fit.offset (16 * (fit.entries.length + 1))

/-- The bytes of the initial boot block: the regions that the entries for it point to, in ascending order of
their offsets and then of their lengths. -/
def BootBlock (fit : Fit) (image : BiosImage) (block : ByteArray) : Prop :=
  ∃ regions ordered : Ranges, List.Forall₂ (FitEntry.PointsTo image)
      (fit.entriesOfType FitEntry.biosStartupModule) regions ∧
    ordered.Perm regions ∧ ordered.Pairwise (Range.le · · = true) ∧ block = ordered.gather image.bytes

/-- A table that is read is that of the address, and lies within the image. -/
theorem of_read (h : Fit.read image = .ok fit) :
    physMem.offset? image.size fit.address = some fit.offset ∧
      fit.offset + 16 * (fit.entries.length + 1) ≤ image.size := by
  obtain ⟨address, -, h⟩ := exists_ok_of_bind h
  dsimp only at h
  split at h
  · cases h
  · rename_i offset hoffset
    have hmapped := (AddressMapper.offsetOfBytes?_eq_some_iff.mp hoffset).1
    split at h
    · cases h
    · split at h
      · cases h
      · rename_i hcount
        cases h
        refine ⟨hmapped, ?_⟩
        simp only [List.length_map, List.length_range]
        simp only [FitEntry.byteSize] at hcount
        omega

/-- The entries for the boot block tell their regions. -/
theorem dataRange?_of_mem {e : FitEntry} (h : e ∈ fit.entriesOfType FitEntry.biosStartupModule) :
    e.dataRange? = some ⟨e.address, e.size.toUInt64 * 16⟩ := by
  rw [FitEntry.dataRange?, if_pos (of_decide_eq_true (List.mem_filter.mp h).2)]

theorem filterMap_dataRange? (fit : Fit) :
    (fit.entriesOfType FitEntry.biosStartupModule).filterMap FitEntry.dataRange? =
      (fit.entriesOfType FitEntry.biosStartupModule).map fun e => ⟨e.address, e.size.toUInt64 * 16⟩ := by
  rw [← List.filterMap_eq_map]
  exact List.filterMap_congr fun e he => dataRange?_of_mem he

theorem bootBlock_eq_ok {regions : Ranges} (h : fit.bootBlock = .ok regions) :
    regions = (fit.entriesOfType FitEntry.biosStartupModule).map fun e => ⟨e.address, e.size.toUInt64 * 16⟩ := by
  rw [bootBlock, filterMap_dataRange?] at h
  split at h
  · cases h
  · exact (Except.ok.inj h).symm

/-- A table with an entry for the boot block has regions of it. -/
theorem exists_bootBlock {e : FitEntry} (h : e ∈ fit.entriesOfType FitEntry.biosStartupModule) :
    ∃ regions, fit.bootBlock = .ok regions := by
  rw [bootBlock, filterMap_dataRange?]
  split
  · rename_i hnil
    rw [List.map_eq_nil_iff] at hnil
    exact absurd (hnil ▸ h) List.not_mem_nil
  · exact ⟨_, rfl⟩

/-- The bytes at the addresses of a table. -/
theorem bytes_of_tableRange (himage : as.image = some image) (hfit : Fit.read image = .ok fit)
    {bytes : ByteArray} (h : (physicalMemory [fit.tableRange]).bytes as = .ok bytes) :
    bytes = fit.bytes image := by
  obtain ⟨hmapped, hsize⟩ := of_read hfit
  have hlength : fit.tableRange.length.toNat = 16 * (fit.entries.length + 1) :=
    image.toNat_toUInt64 (Nat.le_trans (Nat.le_add_left _ _) hsize)
  obtain ⟨offset, hoffset, rfl⟩ := Reference.bytes_mapped himage h
  have hsame : some offset = some fit.offset :=
    (AddressMapper.offsetOfBytes?_eq_some_iff.mp hoffset).1.symm.trans hmapped
  rw [hlength, Option.some.inj hsame, Fit.bytes]

/-- The bytes at the addresses of the boot block. -/
theorem bootBlock_of_bytes (himage : as.image = some image) {regions : Ranges} {bytes : ByteArray}
    (hregions : fit.bootBlock = .ok regions) (h : (physicalMemory regions).bytes as = .ok bytes) :
    fit.BootBlock image bytes := by
  obtain rfl := bootBlock_eq_ok hregions
  obtain ⟨native, hnative, -, rfl⟩ := (Reference.bytes_iff_gather (Artifacts.find?_image himage)).mp h
  have hpoints := (List.forall₂_map_left_iff.mp hnative).imp fun e region => FitEntry.pointsTo_of_toNative
  exact ⟨native, Ranges.sort native, hpoints, Ranges.perm_sort native, Ranges.pairwise_sort native, rfl⟩

end Fit

/-! ## BIOS directory tables -/

namespace BiosDirectory

/-- The bytes of a table, which are those of its header and entries, in the flash window of the image. -/
def HasBytes (image : BiosImage) (table : BiosDirectory) (bytes : ByteArray) : Prop :=
  ∃ offset, amdFlash.offsetOfBytes? image.size table.address (byteSize table.entries.length) = some offset ∧
    bytes = Bytes.slice image.bytes offset (byteSize table.entries.length)

/-- A table is read where its header lies in the image, starts with a cookie, and counts entries that lie in
the image too. -/
theorem read_eq_ok_iff {address : UInt64} {table : BiosDirectory} : read image address = .ok table ↔
    ∃ offset, amdFlash.offsetOfBytes? image.size address headerSize = some offset ∧
      isCookie (Bytes.word image.bytes offset 4).toUInt32 = true ∧
      offset + byteSize (Bytes.word image.bytes (offset + 8) 4) ≤ image.size ∧
      decode image.bytes offset address (Bytes.word image.bytes (offset + 8) 4) = table := by
  constructor
  · intro h
    simp only [read] at h
    split at h
    · cases h
    rename_i offset hoffset
    split at h
    · cases h
    rename_i hcookie
    split at h
    · cases h
    rename_i hsize
    exact ⟨offset, hoffset, by simpa using hcookie, Nat.not_lt.mp hsize, Except.ok.inj h⟩
  · rintro ⟨offset, hoffset, hcookie, hsize, rfl⟩
    simp only [read, hoffset, hcookie, Bool.not_true, Bool.false_eq_true, if_false, if_neg (Nat.not_lt.mpr hsize)]

theorem length_entries_decode (bytes : ByteArray) (offset : Nat) (address : UInt64) (count : Nat) :
    (decode bytes offset address count).entries.length = count := by
  rw [decode, List.length_map, List.length_range]

/-- A table that is read lies within the image. -/
theorem byteSize_le_of_read {address : UInt64} {table : BiosDirectory}
    (h : read image address = .ok table) : byteSize table.entries.length ≤ image.size := by
  obtain ⟨offset, -, -, hsize, rfl⟩ := read_eq_ok_iff.mp h
  rw [length_entries_decode]
  omega

theorem readAll_nil (tables : List BiosDirectory) : readAll image tables [] = .ok tables := by
  rw [readAll]

theorem readAll_of_isReadAt {tables : List BiosDirectory} {address : UInt64} {pending : List UInt64}
    (h : isReadAt tables address = true) :
    readAll image tables (address :: pending) = readAll image tables pending := by
  rw [readAll, dif_pos h]

theorem readAll_of_read {tables : List BiosDirectory} {table : BiosDirectory} {address : UInt64}
    {pending : List UInt64} (hnew : isReadAt tables address = false) (h : read image address = .ok table) :
    readAll image tables (address :: pending) =
      readAll image (tables ++ [table]) (table.level2Addresses.reverse ++ pending) := by
  rw [readAll, dif_neg (by rw [hnew]; decide)]
  split
  · rename_i herror
    cases herror.symm.trans h
  · rename_i htable
    rw [Except.ok.inj (htable.symm.trans h)]

/-- The tables that were read are kept, and each further one is read at its address. -/
theorem read_of_readAll {tables all : List BiosDirectory} {pending : List UInt64}
    (h : readAll image tables pending = .ok all)
    (hread : ∀ t ∈ tables, read image t.address = .ok t) : ∀ t ∈ all, read image t.address = .ok t := by
  fun_induction readAll image tables pending with
  | case1 tables =>
    cases h
    exact hread
  | case2 tables address pending hdone ih => exact ih h hread
  | case3 => cases h
  | case4 tables address pending hnew table htable ih =>
    refine ih h (List.forall_mem_append.mpr ⟨hread, List.forall_mem_singleton.mpr ?_⟩)
    rw [address_of_read htable, htable]

theorem read_of_ofImage {tables : List BiosDirectory} (h : ofImage image = .ok tables) :
    ∀ t ∈ tables, read image t.address = .ok t := by
  obtain ⟨efs, -, h⟩ := exists_ok_of_bind h
  obtain ⟨all, hall, h⟩ := exists_ok_of_bind h
  have hread := read_of_readAll hall nofun
  split at h
  · cases h
  · cases h
    exact hread

/-- The bytes at the addresses of a table. -/
theorem hasBytes_of_range (himage : as.image = some image) {address : UInt64} {table : BiosDirectory}
    (hread : read image address = .ok table) {bytes : ByteArray}
    (h : (flashMemory [table.range]).bytes as = .ok bytes) : table.HasBytes image bytes := by
  have hlength : table.range.length.toNat = byteSize table.entries.length :=
    image.toNat_toUInt64 (byteSize_le_of_read hread)
  obtain ⟨offset, hoffset, rfl⟩ := Reference.bytes_mapped himage h
  rw [hlength] at hoffset ⊢
  exact ⟨offset, hoffset, rfl⟩

/-- A table has a header. -/
theorem HasBytes.isEmpty_eq {table : BiosDirectory} {bytes : ByteArray} (h : table.HasBytes image bytes) :
    bytes.isEmpty = false := by
  obtain ⟨offset, hoffset, rfl⟩ := h
  have hsize := Bytes.size_slice (AddressMapper.offsetOfBytes?_eq_some_iff.mp hoffset).2
  rw [ByteArray.isEmpty, hsize, beq_eq_false_iff_ne, byteSize, headerSize]
  omega

end BiosDirectory

/-! ## Embedded Firmware Structure -/

namespace EmbeddedFirmware

/-- As an equation of functions: unfolding `find` at an image would start to count up to the offsets. -/
theorem find_eq : find = fun image =>
    match (wellKnownOffsets.map (AddressMapper.windowStart image.size + ·)).find? (standsAt image) with
    | some offset => .ok (decode image.bytes offset)
    | none => .error .embeddedFirmwareNotFound := (rfl)

/-- The structure that is found lies within the image. -/
theorem byteSize_le_of_find {efs : EmbeddedFirmware} (h : find image = .ok efs) :
    efs.offset + byteSize ≤ image.size := by
  rw [find_eq] at h
  dsimp only at h
  cases hfound : (wellKnownOffsets.map (AddressMapper.windowStart image.size + ·)).find?
      (standsAt image) with
  | none =>
    rw [hfound] at h
    cases h
  | some offset =>
    have hstands := List.find?_some hfound
    rw [standsAt, Bool.and_eq_true, decide_eq_true_iff] at hstands
    rw [hfound] at h
    rw [← Except.ok.inj h]
    exact hstands.1

theorem toNat_range_of_find {efs : EmbeddedFirmware} (h : find image = .ok efs) :
    efs.range.offset.toNat = efs.offset ∧ efs.range.length.toNat = byteSize := by
  refine ⟨image.toNat_toUInt64 (Nat.le_trans (Nat.le_add_right _ _) (byteSize_le_of_find h)), ?_⟩
  show byteSize.toUInt64.toNat = byteSize
  decide

end EmbeddedFirmware

/-! ## Vendor version -/

namespace VendorVersion

/-- As an equation of functions: unfolding `find` at an image would start to search it. -/
theorem find_eq : find = fun image =>
    match Bytes.find? marker image.bytes with
    | some offset => .ok ⟨offset.toUInt64, marker.size.toUInt64⟩
    | none => .error .vendorVersionNotFound := (rfl)

/-- The range that is found has the bytes of the marker. -/
theorem slice_of_find {range : Range} (h : find image = .ok range) :
    Bytes.slice image.bytes range.offset.toNat range.length.toNat = marker := by
  rw [find_eq] at h
  dsimp only at h
  cases hfound : Bytes.find? marker image.bytes with
  | none =>
    rw [hfound] at h
    cases h
  | some offset =>
    rw [hfound] at h
    obtain ⟨hin, hslice⟩ := Bytes.slice_of_find? hfound
    have hoffset : offset.toUInt64.toNat = offset :=
      image.toNat_toUInt64 (Nat.le_trans (Nat.le_add_right _ _) hin)
    have hlength : marker.size.toUInt64.toNat = marker.size := by decide
    rw [← Except.ok.inj h, hoffset, hlength, hslice]

end VendorVersion

/-! ## Registers -/

namespace Register

/-- A register that is found is present in the snapshot. -/
theorem of_locate {id : Register} {r : Reference} (h : id.locate as = .ok r) :
    (∃ rs value, as.snapshot = some rs ∧ rs.get? id = some value) ∧
      r = ⟨⟨.registers, none⟩, [id.range]⟩ := by
  obtain ⟨rs, hrs, h⟩ := exists_ok_of_bind h
  have hrs := mapError_eq_ok_iff.mp hrs
  rw [Artifacts.getRegisters] at hrs
  cases hsnapshot : as.snapshot with
  | none =>
    rw [hsnapshot] at hrs
    cases hrs
  | some snapshot =>
    rw [hsnapshot] at hrs
    obtain rfl : snapshot = rs := Except.ok.inj hrs
    cases hvalue : snapshot.get? id with
    | none =>
      rw [hvalue] at h
      cases h
    | some value =>
      rw [hvalue] at h
      cases h
      exact ⟨⟨snapshot, value, rfl, hvalue⟩, rfl⟩

/-- The bytes at the range of a register. -/
theorem bytes_of_range {id : Register} {rs : Registers} {value : UInt64} {bytes : ByteArray}
    (hsnapshot : as.snapshot = some rs) (hvalue : rs.get? id = some value)
    (h : Reference.bytes ⟨⟨.registers, none⟩, [id.range]⟩ as = .ok bytes) :
    bytes = Bytes.ofWord value.toNat id.width := by
  have hfind : as.find? .registers = some (.registers rs) := by
    rw [Artifacts.find?, hsnapshot]
    rfl
  obtain ⟨native, hnative, -, rfl⟩ := (Reference.bytes_single_iff hfind).mp h
  cases hnative
  have hslice := rs.slice_layout id
  rw [hvalue, Option.getD_some] at hslice
  rw [← hslice, id.toNat_length_range]
  rfl

end Register

/-! ## What the probes find -/

theorem Probe.locate_eq_ok_iff {p : Probe} {refs : References} : p.locate as = .ok refs ↔
    ∃ image, as.image = some image ∧ p.locateIn image as = .ok refs := by
  have himage (image : BiosImage) : as.getImage = .ok image ↔ as.image = some image := by
    rw [Artifacts.getImage]
    cases as.image <;> simp
  simp only [locate, bind_eq_ok_iff, mapError_eq_ok_iff, himage]

namespace DataSource

variable {data : Data} {bytes : ByteArray}

theorem bytes_references (refs : References) (as : Artifacts) :
    (Data.references refs).bytes as = refs.bytes as := by
  show (refs.bytes as >>= pure) = _
  rw [bind_pure]

theorem fetch_references_eq_ok_iff {refs : References} :
    fetch (.references refs) as = .ok (data, bytes) ↔
      data = .references refs ∧ refs.bytes as = .ok bytes := by
  have hbytes := bytes_references refs as
  rw [fetch_eq_ok_iff, locate, Except.ok.injEq]
  constructor
  · rintro ⟨rfl, h⟩
    exact ⟨rfl, hbytes ▸ h⟩
  · rintro ⟨rfl, h⟩
    exact ⟨rfl, hbytes.trans h⟩

theorem bytes_of_fetch_reference {r : Reference} (h : fetch (.references [r]) as = .ok (data, bytes)) :
    r.bytes as = .ok bytes := by
  rw [← References.bytes_singleton]
  exact (fetch_references_eq_ok_iff.mp h).2

/-- A probe stands for the references that it finds in the image. -/
theorem fetch_probe_eq_ok_iff {p : Probe} : fetch (.probe p) as = .ok (data, bytes) ↔
    ∃ image refs, as.image = some image ∧ p.locateIn image as = .ok refs ∧
      fetch (.references refs) as = .ok (data, bytes) := by
  simp only [fetch_eq_ok_iff, locate, bind_eq_ok_iff, Probe.locate_eq_ok_iff]
  constructor
  · rintro ⟨⟨refs, ⟨image, himage, hrefs⟩, hdata⟩, hbytes⟩
    exact ⟨image, refs, himage, hrefs, hdata, hbytes⟩
  · rintro ⟨image, refs, himage, hrefs, hdata, hbytes⟩
    exact ⟨⟨refs, ⟨image, himage, hrefs⟩, hdata⟩, hbytes⟩

/-- The policy status, in front of the Firmware Interface Table. -/
theorem of_fetch_pcr0Data (h : fetch (.probe .pcr0Data) as = .ok (data, bytes)) :
    ∃ image rs status fit, as.image = some image ∧ as.snapshot = some rs ∧
      rs.get? .acmPolicyStatus = some status ∧ Fit.read image = .ok fit ∧
      bytes = Bytes.ofWord status.toNat 8 ++ fit.bytes image := by
  obtain ⟨image, refs, himage, hrefs, h⟩ := fetch_probe_eq_ok_iff.mp h
  obtain ⟨fit, hfit, hrefs⟩ := exists_ok_of_bind hrefs
  obtain ⟨r, hr, hrefs⟩ := exists_ok_of_bind hrefs
  cases hrefs
  have hfit := mapError_eq_ok_iff.mp hfit
  obtain ⟨⟨rs, status, hsnapshot, hstatus⟩, rfl⟩ := Register.of_locate hr
  obtain ⟨first, rest, hfirst, hrest, rfl⟩ :=
    References.bytes_cons_eq_ok_iff.mp (fetch_references_eq_ok_iff.mp h).2
  rw [References.bytes_singleton] at hrest
  refine ⟨image, rs, status, fit, himage, hsnapshot, hstatus, hfit, ?_⟩
  rw [Register.bytes_of_range hsnapshot hstatus hfirst, Fit.bytes_of_tableRange himage hfit hrest]
  rfl

theorem isEmpty_of_fetch_pcr0Data (h : fetch (.probe .pcr0Data) as = .ok (data, bytes)) :
    bytes.isEmpty = false := by
  obtain ⟨image, rs, status, fit, -, -, -, -, rfl⟩ := of_fetch_pcr0Data h
  rw [ByteArray.isEmpty, ByteArray.size_append, Bytes.size_ofWord, beq_eq_false_iff_ne]
  omega

theorem of_fetch_ibb (h : fetch (.probe .ibb) as = .ok (data, bytes)) :
    ∃ image fit, as.image = some image ∧ Fit.read image = .ok fit ∧ fit.BootBlock image bytes := by
  obtain ⟨image, refs, himage, hrefs, h⟩ := fetch_probe_eq_ok_iff.mp h
  obtain ⟨fit, hfit, hrefs⟩ := exists_ok_of_bind hrefs
  obtain ⟨regions, hregions, hrefs⟩ := exists_ok_of_bind hrefs
  cases hrefs
  exact ⟨image, fit, himage, mapError_eq_ok_iff.mp hfit,
    Fit.bootBlock_of_bytes himage (mapError_eq_ok_iff.mp hregions) (bytes_of_fetch_reference h)⟩

/-- The Embedded Firmware Structure has its bytes wherever it is found. -/
theorem fetch_embeddedFirmware {efs : EmbeddedFirmware} (himage : as.image = some image)
    (hefs : EmbeddedFirmware.find image = .ok efs) :
    ∃ data, fetch (.probe .embeddedFirmware) as =
      .ok (data, Bytes.slice image.bytes efs.offset EmbeddedFirmware.byteSize) := by
  have hsize := EmbeddedFirmware.byteSize_le_of_find hefs
  obtain ⟨hoffset, hlength⟩ := EmbeddedFirmware.toNat_range_of_find hefs
  have hlocate : Probe.embeddedFirmware.locateIn image as = .ok [imageOffsets [efs.range]] := by
    rw [Probe.locateIn, hefs]
    rfl
  refine ⟨_, fetch_probe_eq_ok_iff.mpr ⟨image, _, himage, hlocate, fetch_references_eq_ok_iff.mpr ⟨rfl, ?_⟩⟩⟩
  rw [References.bytes_singleton]
  refine (Reference.bytes_single_iff (Artifacts.find?_image himage)).mpr ⟨efs.range, rfl, ?_, ?_⟩
  · rwa [hoffset, hlength]
  · rw [hoffset, hlength]
    rfl

/-- The vendor version has the bytes of its marker. -/
theorem of_fetch_vendorVersion (h : fetch (.probe .vendorVersion) as = .ok (data, bytes)) :
    bytes = VendorVersion.marker := by
  obtain ⟨image, refs, himage, hrefs, h⟩ := fetch_probe_eq_ok_iff.mp h
  rw [Probe.locateIn] at hrefs
  obtain ⟨range, hrange, hrefs⟩ := exists_ok_of_bind hrefs
  cases hrefs
  obtain ⟨native, hnative, -, rfl⟩ :=
    (Reference.bytes_single_iff (Artifacts.find?_image himage)).mp (bytes_of_fetch_reference h)
  cases hnative
  exact VendorVersion.slice_of_find (mapError_eq_ok_iff.mp hrange)

end DataSource

end MeasuredBoot
