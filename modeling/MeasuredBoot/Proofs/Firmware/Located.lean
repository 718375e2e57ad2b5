import MeasuredBoot.Proofs.Firmware.Flash
import MeasuredBoot.Proofs.Firmware.Readable
import MeasuredBoot.Proofs.Firmware.TableImage

/-!
# Bytes of located structures

What a probe locates is read again from the artifacts, through the mapper of its references, and has the bytes
of the structure that was decoded there:

* `BiosDirectory.AllBytes`: the bytes of the BIOS directory tables, in ascending order of their offsets;
* `VendorVersion.first_of_find`: the marker that is found is the first one;
* `DataSource.bytes_of_locate`: the data that is located has bytes, and which ones, probe by probe.
-/

namespace MeasuredBoot

open AddressMapper (amdFlash)

variable {as : Artifacts} {image : BiosImage}

/-! ## BIOS directory tables -/

namespace BiosDirectory

/-- The region of the image that holds the header and the entries of a table, from the offset of its address
on. -/
def LiesAt (image : BiosImage) (table : BiosDirectory) (region : Range) : Prop :=
  amdFlash.offset? image.size table.address = some region.offset.toNat ∧
    region.length.toNat = 16 + 24 * table.entries.length ∧
    region.offset.toNat + region.length.toNat ≤ image.size

/-- The bytes of tables, in ascending order of their offsets and then of their lengths. -/
def AllBytes (image : BiosImage) (tables : List BiosDirectory) (bytes : ByteArray) : Prop :=
  ∃ regions ordered : Ranges, List.Forall₂ (LiesAt image) tables regions ∧ ordered.Perm regions ∧
    ordered.Pairwise (Range.le · · = true) ∧ bytes = ordered.gather image.bytes

theorem liesAt_of_toNative {table : BiosDirectory} {region : Range}
    (hread : read image table.address = .ok table)
    (h : (⟨.biosImage, some amdFlash⟩ : AddressSpace).toNative (.biosImage image) table.range = .ok region) :
    table.LiesAt image region := by
  have hlength : table.range.length.toNat = byteSize table.entries.length :=
    image.toNat_toUInt64 (byteSize_le_of_read hread)
  obtain ⟨hregion, hsame⟩ := AddressMapper.resolveRange_eq_ok_iff.mp h
  obtain ⟨hoffset, hin⟩ := AddressMapper.offsetOfBytes?_eq_some_iff.mp hregion
  rw [← hsame] at hlength hin
  exact ⟨hoffset, hlength, hin⟩

/-- The bytes at the addresses of the tables of an image. -/
theorem allBytes_of_bytes (himage : as.image = some image) {tables : List BiosDirectory}
    (htables : ofImage image = .ok tables) {bytes : ByteArray}
    (h : (flashMemory (tables.map range)).bytes as = .ok bytes) : AllBytes image tables bytes := by
  obtain ⟨native, hnative, -, rfl⟩ := (Reference.bytes_iff_gather (Artifacts.find?_image himage)).mp h
  have hlies := ((List.forall₂_and_left _ _).mpr
    ⟨read_of_ofImage htables, List.forall₂_map_left_iff.mp hnative⟩).imp
      fun table region ⟨hread, hregion⟩ => liesAt_of_toNative hread hregion
  exact ⟨native, Ranges.sort native, hlies, Ranges.perm_sort native, Ranges.pairwise_sort native, rfl⟩

end BiosDirectory

/-! ## Vendor version -/

/-- The marker that is found is at an offset with no marker at any offset before. -/
theorem VendorVersion.first_of_find {range : Range} (h : find image = .ok range) :
    ∃ pos, range = ⟨pos.toUInt64, 16⟩ ∧ pos + 16 ≤ image.size ∧ Bytes.slice image.bytes pos 16 = marker ∧
      ∀ earlier < pos, Bytes.slice image.bytes earlier 16 ≠ marker := by
  rw [find_eq] at h
  dsimp only at h
  cases hfound : Bytes.find? marker image.bytes with
  | none =>
    rw [hfound] at h
    cases h
  | some pos =>
    rw [hfound] at h
    obtain ⟨hin, hslice⟩ := Bytes.slice_of_find? hfound
    exact ⟨pos, (Except.ok.inj h).symm, hin, hslice, fun earlier hlt => Bytes.slice_ne_of_find? hfound hlt⟩

/-! ## Data of probes -/

namespace DataSource

variable {data : Data} {bytes : ByteArray}

/-- A probe stands for what it finds in the image. -/
theorem locate_probe_eq_ok {p : Probe} {refs : References} (himage : as.image = some image)
    (h : p.locateIn image as = .ok refs) : locate (.probe p) as = .ok (.references refs) := by
  rw [locate, Probe.locate_eq_ok_iff.mpr ⟨image, himage, h⟩]
  rfl

/-- Data that is located can be fetched, except for the two probes whose addresses nothing has checked. -/
theorem exists_fetch_of_locate {p : Probe} (hp : p ≠ .fitPointer) (hibb : p ≠ .ibb)
    (h : locate (.probe p) as = .ok data) :
    ∃ bytes, data.bytes as = .ok bytes ∧ fetch (.probe p) as = .ok (data, bytes) := by
  obtain ⟨refs, hrefs, hdata⟩ := exists_ok_of_bind h
  cases hdata
  obtain ⟨image, himage, hlocated⟩ := Probe.locate_eq_ok_iff.mp hrefs
  obtain ⟨bytes, hbytes⟩ := Probe.exists_bytes himage hp (fun hp => absurd hp hibb) hlocated
  rw [← bytes_references] at hbytes
  exact ⟨bytes, hbytes, fetch_eq_ok_iff.mpr ⟨h, hbytes⟩⟩

theorem of_fetch_fitHeaders (h : fetch (.probe .fitHeaders) as = .ok (data, bytes)) :
    ∃ image fit, as.image = some image ∧ Fit.read image = .ok fit ∧ bytes = fit.bytes image := by
  obtain ⟨image, refs, himage, hrefs, h⟩ := fetch_probe_eq_ok_iff.mp h
  obtain ⟨fit, hfit, hrefs⟩ := exists_ok_of_bind hrefs
  cases hrefs
  have hfit := mapError_eq_ok_iff.mp hfit
  exact ⟨image, fit, himage, hfit, Fit.bytes_of_tableRange himage hfit (bytes_of_fetch_reference h)⟩

theorem of_fetch_embeddedFirmware (h : fetch (.probe .embeddedFirmware) as = .ok (data, bytes)) :
    ∃ image efs, as.image = some image ∧ EmbeddedFirmware.find image = .ok efs ∧
      bytes = Bytes.slice image.bytes efs.offset EmbeddedFirmware.byteSize := by
  obtain ⟨image, refs, himage, hrefs, -⟩ := fetch_probe_eq_ok_iff.mp h
  rw [Probe.locateIn] at hrefs
  obtain ⟨efs, hefs, -⟩ := exists_ok_of_bind hrefs
  have hefs := mapError_eq_ok_iff.mp hefs
  obtain ⟨data', hfetch⟩ := fetch_embeddedFirmware himage hefs
  have hsame := congrArg Prod.snd (Except.ok.inj (h.symm.trans hfetch))
  exact ⟨image, efs, himage, hefs, hsame⟩

theorem of_fetch_biosDirectory (h : fetch (.probe .biosDirectory) as = .ok (data, bytes)) :
    ∃ image tables, as.image = some image ∧ BiosDirectory.ofImage image = .ok tables ∧
      BiosDirectory.AllBytes image tables bytes := by
  obtain ⟨image, refs, himage, hrefs, h⟩ := fetch_probe_eq_ok_iff.mp h
  rw [Probe.locateIn] at hrefs
  obtain ⟨tables, htables, hrefs⟩ := exists_ok_of_bind hrefs
  cases hrefs
  have htables := mapError_eq_ok_iff.mp htables
  exact ⟨image, tables, himage, htables,
    BiosDirectory.allBytes_of_bytes himage htables (bytes_of_fetch_reference h)⟩

theorem find_of_fetch_vendorVersion (h : fetch (.probe .vendorVersion) as = .ok (data, bytes)) :
    ∃ image range, as.image = some image ∧ VendorVersion.find image = .ok range ∧
      data = .references [imageOffsets [range]] := by
  obtain ⟨image, refs, himage, hrefs, h⟩ := fetch_probe_eq_ok_iff.mp h
  rw [Probe.locateIn] at hrefs
  obtain ⟨range, hrange, hrefs⟩ := exists_ok_of_bind hrefs
  cases hrefs
  exact ⟨image, range, himage, mapError_eq_ok_iff.mp hrange, (fetch_references_eq_ok_iff.mp h).1⟩

/-- Data that is located has bytes. They are those of the Firmware Interface Table, behind the register where
it is measured with it; those of the Embedded Firmware Structure; those of all BIOS directory tables, in
ascending order of their offsets; and those of the first marker of a vendor version. -/
theorem bytes_of_locate (as : Artifacts) (data : Data) :
    (locate (.probe .fitHeaders) as = .ok data →
      ∃ image fit, as.image = some image ∧ Fit.read image = .ok fit ∧
        fit.offset + 16 * (fit.entries.length + 1) ≤ image.size ∧
        data.bytes as = .ok (Bytes.slice image.bytes fit.offset (16 * (fit.entries.length + 1)))) ∧
    (locate (.probe .pcr0Data) as = .ok data →
      ∃ image rs status fit, as.image = some image ∧ as.snapshot = some rs ∧
        rs.get? .acmPolicyStatus = some status ∧ Fit.read image = .ok fit ∧
        fit.offset + 16 * (fit.entries.length + 1) ≤ image.size ∧
        data.bytes as = .ok (Bytes.ofWord status.toNat 8 ++
          Bytes.slice image.bytes fit.offset (16 * (fit.entries.length + 1)))) ∧
    (locate (.probe .embeddedFirmware) as = .ok data →
      ∃ image efs, as.image = some image ∧ EmbeddedFirmware.find image = .ok efs ∧
        efs.offset + 36 ≤ image.size ∧ data.bytes as = .ok (Bytes.slice image.bytes efs.offset 36)) ∧
    (locate (.probe .biosDirectory) as = .ok data →
      ∃ image tables bytes, as.image = some image ∧ BiosDirectory.ofImage image = .ok tables ∧
        BiosDirectory.AllBytes image tables bytes ∧ data.bytes as = .ok bytes) ∧
    (locate (.probe .vendorVersion) as = .ok data →
      ∃ image pos, as.image = some image ∧ pos + 16 ≤ image.size ∧
        Bytes.slice image.bytes pos 16 = VendorVersion.marker ∧
        (∀ earlier < pos, Bytes.slice image.bytes earlier 16 ≠ VendorVersion.marker) ∧
        data = .references [imageOffsets [⟨pos.toUInt64, 16⟩]] ∧
        data.bytes as = .ok VendorVersion.marker) := by
  refine ⟨fun h => ?_, fun h => ?_, fun h => ?_, fun h => ?_, fun h => ?_⟩
  · obtain ⟨bytes, hbytes, hfetch⟩ := exists_fetch_of_locate (by decide) (by decide) h
    obtain ⟨image, fit, himage, hfit, rfl⟩ := of_fetch_fitHeaders hfetch
    exact ⟨image, fit, himage, hfit, (Fit.of_read hfit).2, hbytes⟩
  · obtain ⟨bytes, hbytes, hfetch⟩ := exists_fetch_of_locate (by decide) (by decide) h
    obtain ⟨image, rs, status, fit, himage, hrs, hstatus, hfit, rfl⟩ := of_fetch_pcr0Data hfetch
    exact ⟨image, rs, status, fit, himage, hrs, hstatus, hfit, (Fit.of_read hfit).2, hbytes⟩
  · obtain ⟨bytes, hbytes, hfetch⟩ := exists_fetch_of_locate (by decide) (by decide) h
    obtain ⟨image, efs, himage, hefs, rfl⟩ := of_fetch_embeddedFirmware hfetch
    exact ⟨image, efs, himage, hefs, EmbeddedFirmware.byteSize_le_of_find hefs, hbytes⟩
  · obtain ⟨bytes, hbytes, hfetch⟩ := exists_fetch_of_locate (by decide) (by decide) h
    obtain ⟨image, tables, himage, htables, hall⟩ := of_fetch_biosDirectory hfetch
    exact ⟨image, tables, bytes, himage, htables, hall, hbytes⟩
  · obtain ⟨bytes, hbytes, hfetch⟩ := exists_fetch_of_locate (by decide) (by decide) h
    obtain rfl := of_fetch_vendorVersion hfetch
    obtain ⟨image, range, himage, hrange, hdata⟩ := find_of_fetch_vendorVersion hfetch
    obtain ⟨pos, rfl, hin, hslice, hfirst⟩ := VendorVersion.first_of_find hrange
    exact ⟨image, pos, himage, hin, hslice, hfirst, hdata, hbytes⟩

/-- All five probes: of an image with a Firmware Interface Table and a marker, and of a flash image with a
BIOS directory table. -/
theorem bytes_of_locate_plainFlash :
    (∃ data fit, locate (.probe .fitHeaders) markedMachine.artifacts = .ok data ∧
      Fit.read markedImage = .ok fit ∧ data.bytes markedMachine.artifacts =
        .ok (Bytes.slice markedImage.bytes fit.offset (16 * (fit.entries.length + 1)))) ∧
    (∃ data fit, locate (.probe .pcr0Data) markedMachine.artifacts = .ok data ∧
      Fit.read markedImage = .ok fit ∧
      data.bytes markedMachine.artifacts = .ok (Bytes.ofWord 0x1032980E5B 8 ++
        Bytes.slice markedImage.bytes fit.offset (16 * (fit.entries.length + 1)))) ∧
    (∃ data, locate (.probe .vendorVersion) markedMachine.artifacts = .ok data ∧
      data.bytes markedMachine.artifacts = .ok VendorVersion.marker) ∧
    (∃ data, locate (.probe .embeddedFirmware) { image := some plainFlash } = .ok data ∧
      data.bytes { image := some plainFlash } = .ok (Bytes.slice plainFlash.bytes 0x20000 36)) ∧
    ∃ data bytes, locate (.probe .biosDirectory) { image := some plainFlash } = .ok data ∧
      BiosDirectory.AllBytes plainFlash [plainTable] bytes ∧
      data.bytes { image := some plainFlash } = .ok bytes := by
  obtain ⟨headers, hheaders⟩ : ∃ data, locate (.probe .fitHeaders) markedMachine.artifacts = .ok data :=
    exists_ok_of_isOk (by decide +kernel)
  obtain ⟨data, hdata⟩ : ∃ data, locate (.probe .pcr0Data) markedMachine.artifacts = .ok data :=
    exists_ok_of_isOk (by decide +kernel)
  obtain ⟨marker, hmarker⟩ : ∃ data, locate (.probe .vendorVersion) markedMachine.artifacts = .ok data :=
    exists_ok_of_isOk (by decide +kernel)
  have hefsIn : Probe.embeddedFirmware.locateIn plainFlash { image := some plainFlash } =
      .ok [imageOffsets [plainEfs.range]] := by
    rw [Probe.locateIn, find_plainFlash]
    rfl
  have htablesIn : Probe.biosDirectory.locateIn plainFlash { image := some plainFlash } =
      .ok [flashMemory [plainTable.range]] := by
    rw [Probe.locateIn, ofImage_plainFlash]
    rfl
  have hefs := locate_probe_eq_ok rfl hefsIn
  have htables := locate_probe_eq_ok rfl htablesIn
  obtain ⟨htable, -⟩ := bytes_of_locate markedMachine.artifacts headers
  obtain ⟨image, read, himage, hread, -, hheaderBytes⟩ := htable hheaders
  obtain rfl := Option.some.inj himage
  obtain ⟨-, hregister, -⟩ := bytes_of_locate markedMachine.artifacts data
  obtain ⟨image, rs, status, fit, himage, hrs, hstatus, hfit, -, hbytes⟩ := hregister hdata
  cases himage
  cases hrs
  cases hstatus
  obtain ⟨-, -, -, -, hversion⟩ := bytes_of_locate markedMachine.artifacts marker
  obtain ⟨-, -, -, -, -, -, -, hversion⟩ := hversion hmarker
  obtain ⟨-, -, hstructure, -⟩ := bytes_of_locate { image := some plainFlash } _
  obtain ⟨image, efs, himage, hfind, -, hefsBytes⟩ := hstructure hefs
  obtain rfl := Option.some.inj himage
  obtain rfl := Except.ok.inj (find_plainFlash.symm.trans hfind)
  obtain ⟨-, -, -, hdirectory, -⟩ := bytes_of_locate { image := some plainFlash } _
  obtain ⟨image, tables, bytes, himage, htablesFound, hall, htableBytes⟩ := hdirectory htables
  obtain rfl := Option.some.inj himage
  obtain rfl := Except.ok.inj (ofImage_plainFlash.symm.trans htablesFound)
  exact ⟨⟨headers, read, hheaders, hread, hheaderBytes⟩, ⟨data, fit, hdata, hfit, hbytes⟩,
    ⟨marker, hmarker, hversion⟩, ⟨_, hefs, hefsBytes⟩, ⟨_, bytes, htables, hall, htableBytes⟩⟩

end DataSource

end MeasuredBoot
