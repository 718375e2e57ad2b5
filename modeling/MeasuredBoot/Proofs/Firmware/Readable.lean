import MeasuredBoot.Proofs.Firmware.Contents

/-!
# Structures that can be read

What a probe finds has bytes, since whatever tells the place of a structure is checked when the structure is
read. There are two exceptions: the pointer to the Firmware Interface Table, which nothing tells the place
of, and the initial boot block, whose entries in the table are taken as they are (`Fit.Astray`).

* `Reference.exists_bytes_mapped_iff`, `Reference.unresolvable_of_bytes_mapped`: addresses of the image that
  have bytes, and what is told about those that have none;
* `Fit.resolves_tableRange`, `BiosDirectory.resolves_range`: the structures that are read;
* `Probe.exists_bytes`: what is found has bytes, and the boot block exactly if no entry is astray;
* `DataSource.source_of_fetch_probe`: a probe otherwise fails for what is in the image, or in the registers;
* `DataSource.contract_of_fetch_ibb`: how the boot block fails.
-/

namespace MeasuredBoot

open AddressMapper (physMem amdFlash)

variable {as : Artifacts} {image : BiosImage}

/-! ## Addresses -/

/-- Addresses of the image have bytes if all ranges are mapped. -/
theorem Reference.exists_bytes_mapped_iff (himage : as.image = some image) {mapper : AddressMapper}
    {ranges : Ranges} :
    (∃ bytes, Reference.bytes ⟨⟨.biosImage, some mapper⟩, ranges⟩ as = .ok bytes) ↔
      ∀ range ∈ ranges, mapper.Resolves image.size range := by
  let r : Reference := ⟨⟨.biosImage, some mapper⟩, ranges⟩
  have hfind : as.find? r.artifact = some (.biosImage image) := Artifacts.find?_image himage
  have hnative : (∃ native, r.nativeRanges as = .ok native) ↔
      ∀ range ∈ ranges, mapper.Resolves image.size range := by
    rw [exists_nativeRanges_iff]
    constructor
    · rintro ⟨_, ha, hall⟩
      obtain rfl := Option.some.inj (hfind.symm.trans ha)
      exact hall
    · exact fun hall => ⟨_, hfind, hall⟩
  rw [← hnative]
  constructor
  · rintro ⟨bytes, h⟩
    obtain ⟨native, hall, -, -⟩ := (bytes_iff_gather hfind).mp h
    exact ⟨_, nativeRanges_eq_ok_iff.mpr ⟨_, native, hfind, hall, rfl⟩⟩
  · rintro ⟨_, h⟩
    obtain ⟨_, native, ha, hall, -⟩ := nativeRanges_eq_ok_iff.mp h
    obtain rfl := Option.some.inj (hfind.symm.trans ha)
    refine ⟨_, (bytes_iff_gather hfind).mpr ⟨native, hall, fun n hn => ?_, rfl⟩⟩
    obtain ⟨i, hi, rfl⟩ := List.getElem_of_mem hn
    have hresolve := hall.get (hall.length_eq ▸ hi) hi
    obtain ⟨hoffset, hlength⟩ := AddressMapper.resolveRange_eq_ok_iff.mp hresolve
    have hle := (AddressMapper.offsetOfBytes?_eq_some_iff.mp hoffset).2
    rwa [← hlength] at hle

/-- The first range that is not mapped is told. -/
theorem AddressMapper.unresolvable_of_resolve {mapper : AddressMapper} {a : Artifact} {ranges : Ranges}
    {e : ContractViolation} (h : mapper.resolve a ranges = .error e) :
    ∃ range, ranges.find? (fun range => ¬mapper.Resolves a.size range) = some range ∧
      e = .unresolvableRange mapper a.kind range a.size := by
  obtain ⟨before, range, after, rfl, hbefore, h⟩ := exists_error_of_mapM h
  obtain ⟨hunmapped, he⟩ := unresolvable_of_resolveRange h
  refine ⟨range, List.find?_eq_some_iff_append.mpr ⟨decide_eq_true hunmapped, before, after, rfl, ?_⟩, he⟩
  intro mapped hmem
  have hmapped : mapper.Resolves a.size mapped := exists_resolveRange_iff.mp (hbefore mapped hmem)
  rw [decide_eq_false (not_not_intro hmapped), Bool.not_false]

/-- Addresses of the image have no bytes because of the first range that is not mapped. -/
theorem Reference.unresolvable_of_bytes_mapped (himage : as.image = some image) {mapper : AddressMapper}
    {ranges : Ranges} {violation : ContractViolation}
    (h : Reference.bytes ⟨⟨.biosImage, some mapper⟩, ranges⟩ as = .error violation) :
    ∃ range, ranges.find? (fun range => ¬mapper.Resolves image.size range) = some range ∧
      violation = .unresolvableRange mapper .biosImage range image.size := by
  have hget : as.get .biosImage = .ok (.biosImage image) := by
    rw [Artifacts.get, Artifacts.find?_image himage]
  have hnone (bytes : ByteArray) : Reference.bytes ⟨⟨.biosImage, some mapper⟩, ranges⟩ as ≠ .ok bytes := by
    intro hbytes
    cases h.symm.trans hbytes
  rw [Reference.bytes] at h
  obtain h | ⟨_, -, h⟩ := bind_eq_error_iff.mp h
  · cases hget.symm.trans h
  obtain h | ⟨native, hnative, -⟩ := bind_eq_error_iff.mp h
  · rw [nativeRanges, hget, ok_bind] at h
    obtain h | ⟨_, -, h⟩ := bind_eq_error_iff.mp h
    · exact AddressMapper.unresolvable_of_resolve h
    · cases h
  · -- ranges that are mapped have bytes
    obtain ⟨_, hfind, hall⟩ := exists_nativeRanges_iff.mp ⟨native, hnative⟩
    obtain rfl := Option.some.inj ((Artifacts.find?_image himage).symm.trans hfind)
    obtain ⟨bytes, hbytes⟩ := (Reference.exists_bytes_mapped_iff himage).mpr hall
    exact absurd hbytes (hnone bytes)

/-- Offsets within an artifact have bytes. -/
theorem Reference.exists_bytes_of_le {kind : ArtifactKind} {a : Artifact} {range : Range}
    (ha : as.find? kind = some a) (hrange : range.offset.toNat + range.length.toNat ≤ a.size) :
    ∃ bytes, Reference.bytes ⟨⟨kind, none⟩, [range]⟩ as = .ok bytes :=
  ⟨_, (bytes_single_iff ha).mpr ⟨range, rfl, hrange, rfl⟩⟩

/-! ## Structures -/

/-- A Firmware Interface Table that is read lies at its address. -/
theorem Fit.resolves_tableRange {fit : Fit} (h : Fit.read image = .ok fit) :
    physMem.Resolves image.size fit.tableRange := by
  obtain ⟨hmapped, hsize⟩ := of_read h
  have hlength : fit.tableRange.length.toNat = 16 * (fit.entries.length + 1) :=
    image.toNat_toUInt64 (Nat.le_trans (Nat.le_add_left _ _) hsize)
  exact ⟨fit.offset, AddressMapper.offsetOfBytes?_eq_some_iff.mpr ⟨hmapped, hlength ▸ hsize⟩⟩

/-- A BIOS directory table that is read lies at its address. -/
theorem BiosDirectory.resolves_range {address : UInt64} {table : BiosDirectory}
    (h : read image address = .ok table) : amdFlash.Resolves image.size table.range := by
  have hlength : table.range.length.toNat = byteSize table.entries.length :=
    image.toNat_toUInt64 (byteSize_le_of_read h)
  have haddress := address_of_read h
  obtain ⟨offset, hoffset, -, hsize, rfl⟩ := read_eq_ok_iff.mp h
  obtain ⟨hmapped, -⟩ := AddressMapper.offsetOfBytes?_eq_some_iff.mp hoffset
  refine ⟨offset, AddressMapper.offsetOfBytes?_eq_some_iff.mpr ⟨?_, ?_⟩⟩
  · rw [range, haddress]
    exact hmapped
  · rw [hlength, length_entries_decode]
    exact hsize

theorem BiosDirectory.resolves_range_of_ofImage {tables : List BiosDirectory} (h : ofImage image = .ok tables) :
    ∀ table ∈ tables, amdFlash.Resolves image.size table.range :=
  fun table htable => resolves_range (read_of_ofImage h table htable)

/-- The marker of the vendor version that is found lies within the image. -/
theorem VendorVersion.range_le_of_find {range : Range} (h : find image = .ok range) :
    range.offset.toNat + range.length.toNat ≤ image.size := by
  rw [find_eq] at h
  dsimp only at h
  cases hfound : Bytes.find? marker image.bytes with
  | none =>
    rw [hfound] at h
    cases h
  | some offset =>
    rw [hfound] at h
    obtain ⟨hin, -⟩ := Bytes.slice_of_find? hfound
    have hoffset : offset.toUInt64.toNat = offset :=
      image.toNat_toUInt64 (Nat.le_trans (Nat.le_add_right _ _) hin)
    rw [← Except.ok.inj h, hoffset]
    exact hin

/-- The entry points to bytes that are not all in the image. -/
def FitEntry.Astray (image : BiosImage) (e : FitEntry) : Prop :=
  physMem.offsetOfBytes? image.size e.address (16 * e.size.toNat) = none

/-- An entry for the initial boot block points to bytes that are not all in the image. -/
def Fit.Astray (image : BiosImage) (fit : Fit) : Prop :=
  ∃ e ∈ fit.entriesOfType FitEntry.biosStartupModule, e.Astray image

instance (e : FitEntry) : Decidable (e.Astray image) := inferInstanceAs (Decidable (_ = _))

instance (fit : Fit) : Decidable (fit.Astray image) := inferInstanceAs (Decidable (∃ e ∈ _, _))

/-- The first such entry. -/
def Fit.firstAstray? (image : BiosImage) (fit : Fit) : Option FitEntry :=
  (fit.entriesOfType FitEntry.biosStartupModule).find? (·.Astray image)

theorem FitEntry.resolves_iff (e : FitEntry) :
    physMem.Resolves image.size ⟨e.address, e.size.toUInt64 * 16⟩ ↔ ¬e.Astray image := by
  rw [AddressMapper.Resolves, e.toNat_regionSize, Astray, ← ne_eq, Option.ne_none_iff_exists']

/-- The boot block has bytes exactly if no entry is astray. -/
theorem Fit.exists_bytes_bootBlock_iff (himage : as.image = some image) {fit : Fit} {regions : Ranges}
    (h : fit.bootBlock = .ok regions) :
    (∃ bytes, (physicalMemory regions).bytes as = .ok bytes) ↔ ¬fit.Astray image := by
  rw [physicalMemory, Reference.exists_bytes_mapped_iff himage, bootBlock_eq_ok h, List.forall_mem_map]
  simp only [FitEntry.resolves_iff, Astray, not_exists, not_and]

/-! ## Probes -/

/-- A register of a snapshot is located unless it is not present. -/
theorem Register.source_of_locate_error {id : Register} {rs : Registers} {e : BootError}
    (hsnapshot : as.snapshot = some rs) (h : id.locate as = .error e) : ∃ reason, e = .source reason := by
  rw [locate, Artifacts.getRegisters, hsnapshot] at h
  obtain hnone | ⟨_, hsome, h⟩ := bind_eq_error_iff.mp h
  · cases hnone
  cases hsome
  cases hvalue : rs.get? id with
  | some value =>
    rw [hvalue] at h
    cases h
  | none =>
    rw [hvalue] at h
    cases h
    exact ⟨_, rfl⟩

/-- A probe of an image and a snapshot finds something unless a structure or a register is not there. -/
theorem Probe.source_of_locate_error {p : Probe} {rs : Registers} {e : BootError}
    (himage : as.image = some image) (hsnapshot : as.snapshot = some rs) (h : p.locate as = .error e) :
    ∃ reason, e = .source reason := by
  have hsource {α : Type} {x : Except SourceError α} {e : BootError} (h : x.mapError .source = .error e) :
      ∃ reason, e = .source reason := by
    obtain ⟨reason, -, rfl⟩ := mapError_eq_error_iff.mp h
    exact ⟨reason, rfl⟩
  rw [locate, Artifacts.getImage, himage] at h
  obtain hnone | ⟨_, hsome, h⟩ := bind_eq_error_iff.mp h
  · cases hnone
  cases hsome
  cases p with
  | fitPointer => cases h
  | fitHeaders =>
    obtain h | ⟨fit, -, h⟩ := bind_eq_error_iff.mp h
    · exact hsource h
    · cases h
  | pcr0Data =>
    obtain h | ⟨fit, -, h⟩ := bind_eq_error_iff.mp h
    · exact hsource h
    obtain h | ⟨fit, -, h⟩ := bind_eq_error_iff.mp h
    · exact Register.source_of_locate_error hsnapshot h
    · cases h
  | ibb =>
    obtain h | ⟨fit, -, h⟩ := bind_eq_error_iff.mp h
    · exact hsource h
    obtain h | ⟨fit, -, h⟩ := bind_eq_error_iff.mp h
    · exact hsource h
    · cases h
  | embeddedFirmware | biosDirectory | vendorVersion =>
    rw [locateIn] at h
    obtain h | ⟨fit, -, h⟩ := bind_eq_error_iff.mp h
    · exact hsource h
    · cases h

/-- What a probe finds has bytes, unless it is the boot block and an entry for it is astray. -/
theorem Probe.exists_bytes {p : Probe} {refs : References} (himage : as.image = some image)
    (hp : p ≠ .fitPointer) (hibb : p = .ibb → ∀ fit, Fit.read image = .ok fit → ¬fit.Astray image)
    (h : p.locateIn image as = .ok refs) : ∃ bytes, refs.bytes as = .ok bytes := by
  cases p with
  | fitPointer => exact absurd rfl hp
  | fitHeaders =>
    obtain ⟨fit, hfit, h⟩ := exists_ok_of_bind h
    cases h
    rw [References.bytes_singleton]
    exact (Reference.exists_bytes_mapped_iff himage).mpr
      (List.forall_mem_singleton.mpr (Fit.resolves_tableRange (mapError_eq_ok_iff.mp hfit)))
  | pcr0Data =>
    obtain ⟨fit, hfit, h⟩ := exists_ok_of_bind h
    obtain ⟨status, hstatus, h⟩ := exists_ok_of_bind h
    cases h
    obtain ⟨⟨rs, value, hsnapshot, -⟩, rfl⟩ := Register.of_locate hstatus
    have hfind : as.find? .registers = some (.registers rs) := by
      rw [Artifacts.find?, hsnapshot]
      rfl
    have hrange : Register.acmPolicyStatus.range.offset.toNat + Register.acmPolicyStatus.range.length.toNat ≤
        (Artifact.registers rs).size := by
      rw [Artifact.size, Artifact.content, Registers.size_layout]
      decide
    obtain ⟨first, hfirst⟩ := Reference.exists_bytes_of_le hfind hrange
    obtain ⟨table, htable⟩ := (Reference.exists_bytes_mapped_iff himage).mpr
      (List.forall_mem_singleton.mpr (Fit.resolves_tableRange (mapError_eq_ok_iff.mp hfit)))
    refine ⟨_, References.bytes_cons_eq_ok_iff.mpr ⟨first, table, hfirst, ?_, rfl⟩⟩
    rw [References.bytes_singleton]
    exact htable
  | ibb =>
    obtain ⟨fit, hfit, h⟩ := exists_ok_of_bind h
    obtain ⟨regions, hregions, h⟩ := exists_ok_of_bind h
    cases h
    rw [References.bytes_singleton]
    exact (Fit.exists_bytes_bootBlock_iff himage (mapError_eq_ok_iff.mp hregions)).mpr
      (hibb rfl fit (mapError_eq_ok_iff.mp hfit))
  | embeddedFirmware =>
    rw [locateIn] at h
    obtain ⟨efs, hefs, h⟩ := exists_ok_of_bind h
    cases h
    have hefs := mapError_eq_ok_iff.mp hefs
    obtain ⟨hoffset, hlength⟩ := EmbeddedFirmware.toNat_range_of_find hefs
    rw [References.bytes_singleton]
    refine Reference.exists_bytes_of_le (Artifacts.find?_image himage) ?_
    rw [hoffset, hlength]
    exact EmbeddedFirmware.byteSize_le_of_find hefs
  | biosDirectory =>
    obtain ⟨tables, htables, h⟩ := exists_ok_of_bind h
    cases h
    rw [References.bytes_singleton]
    have htables := BiosDirectory.resolves_range_of_ofImage (mapError_eq_ok_iff.mp htables)
    exact (Reference.exists_bytes_mapped_iff himage).mpr (List.forall_mem_map.mpr htables)
  | vendorVersion =>
    rw [locateIn] at h
    obtain ⟨range, hrange, h⟩ := exists_ok_of_bind h
    cases h
    rw [References.bytes_singleton]
    exact Reference.exists_bytes_of_le (Artifacts.find?_image himage)
      (VendorVersion.range_le_of_find (mapError_eq_ok_iff.mp hrange))

/-- Each BIOS directory table that is found has bytes of its own. -/
theorem BiosDirectory.exists_fetch_of_locate (himage : as.image = some image) {refs : References}
    {r : Reference} {range : Range} (h : Probe.biosDirectory.locate as = .ok refs) (hr : r ∈ refs)
    (hrange : range ∈ r.ranges) :
    ∃ fetched, DataSource.fetch (.references [⟨r.space, [range]⟩]) as = .ok fetched := by
  obtain ⟨image', himage', h⟩ := Probe.locate_eq_ok_iff.mp h
  obtain rfl := Option.some.inj (himage.symm.trans himage')
  obtain ⟨tables, htables, h⟩ := exists_ok_of_bind h
  cases h
  obtain rfl := List.mem_singleton.mp hr
  obtain ⟨table, htable, rfl⟩ := List.mem_map.mp hrange
  have hresolves := resolves_range_of_ofImage (mapError_eq_ok_iff.mp htables) table htable
  obtain ⟨bytes, hbytes⟩ := (Reference.exists_bytes_mapped_iff himage).mpr
    (List.forall_mem_singleton.mpr hresolves)
  refine ⟨(_, bytes), DataSource.fetch_references_eq_ok_iff.mpr ⟨rfl, ?_⟩⟩
  rw [References.bytes_singleton]
  exact hbytes

namespace DataSource

variable {rs : Registers}

/-- A probe finds nothing, or what it finds has no bytes. -/
theorem error_of_fetch_probe {p : Probe} {e : BootError} (himage : as.image = some image)
    (hsnapshot : as.snapshot = some rs) (h : fetch (.probe p) as = .error e) :
    (∃ reason, e = .source reason) ∨
    ∃ refs violation, p.locateIn image as = .ok refs ∧ refs.bytes as = .error violation ∧
      e = .contract violation := by
  obtain h | ⟨data, hdata, h⟩ := bind_eq_error_iff.mp h
  · obtain h | ⟨_, -, h⟩ := bind_eq_error_iff.mp h
    · exact .inl (Probe.source_of_locate_error himage hsnapshot h)
    · cases h
  · obtain ⟨refs, hrefs, hdata⟩ := exists_ok_of_bind hdata
    cases hdata
    obtain ⟨image', himage', hlocated⟩ := Probe.locate_eq_ok_iff.mp hrefs
    obtain rfl := Option.some.inj (himage.symm.trans himage')
    obtain h | ⟨_, -, h⟩ := bind_eq_error_iff.mp h
    · obtain ⟨violation, hviolation, rfl⟩ := mapError_eq_error_iff.mp h
      rw [bytes_references] at hviolation
      exact .inr ⟨refs, violation, hlocated, hviolation, rfl⟩
    · cases h

/-- A probe whose bytes are there if it finds anything fails for what is in the image or the registers. -/
theorem source_of_fetch_probe {p : Probe} {e : BootError} (himage : as.image = some image)
    (hsnapshot : as.snapshot = some rs) (hp : p ≠ .fitPointer)
    (hibb : p = .ibb → ∀ fit, Fit.read image = .ok fit → ¬fit.Astray image)
    (h : fetch (.probe p) as = .error e) : ∃ reason, e = .source reason := by
  obtain hsource | ⟨refs, violation, hrefs, hviolation, -⟩ := error_of_fetch_probe himage hsnapshot h
  · exact hsource
  · obtain ⟨bytes, hbytes⟩ := Probe.exists_bytes himage hp hibb hrefs
    cases hbytes.symm.trans hviolation

/-- The policy status and the table have bytes if both are there. -/
theorem exists_fetch_pcr0Data {fit : Fit} (himage : as.image = some image) (hsnapshot : as.snapshot = some rs)
    (hstatus : (rs.get? .acmPolicyStatus).isSome = true) (hfit : Fit.read image = .ok fit) :
    ∃ data bytes, fetch (.probe .pcr0Data) as = .ok (data, bytes) := by
  obtain ⟨status, hstatus⟩ := Option.isSome_iff_exists.mp hstatus
  have hregister : Register.acmPolicyStatus.locate as =
      .ok ⟨⟨.registers, none⟩, [Register.acmPolicyStatus.range]⟩ := by
    simp only [Register.locate, Artifacts.getRegisters, hsnapshot, Except.mapError, ok_bind, hstatus]
    rfl
  have hlocate : Probe.pcr0Data.locateIn image as =
      .ok [⟨⟨.registers, none⟩, [Register.acmPolicyStatus.range]⟩, physicalMemory [fit.tableRange]] :=
    bind_eq_ok_iff.mpr ⟨fit, mapError_eq_ok_iff.mpr hfit, bind_eq_ok_iff.mpr ⟨_, hregister, rfl⟩⟩
  obtain ⟨bytes, hbytes⟩ := Probe.exists_bytes himage (p := .pcr0Data) (by decide)
    (fun h => absurd h (by decide)) hlocate
  exact ⟨_, bytes, fetch_probe_eq_ok_iff.mpr
    ⟨image, _, himage, hlocate, fetch_references_eq_ok_iff.mpr ⟨rfl, hbytes⟩⟩⟩

/-- The boot block cannot be fetched if an entry for it is astray, which violates the contract. -/
theorem contract_of_fetch_ibb {fit : Fit} (himage : as.image = some image) (hfit : Fit.read image = .ok fit)
    (hastray : fit.Astray image) : ∃ e region, fit.firstAstray? image = some e ∧
      e.dataRange? = some region ∧ fetch (.probe .ibb) as =
        .error (.contract (.unresolvableRange .physMem .biosImage region image.size)) := by
  obtain ⟨_, hentry, -⟩ := id hastray
  obtain ⟨regions, hregions⟩ := Fit.exists_bootBlock hentry
  have hlocate : Probe.ibb.locate as = .ok [physicalMemory regions] := by
    rw [Probe.locate_eq_ok_iff]
    refine ⟨image, himage, ?_⟩
    exact bind_eq_ok_iff.mpr ⟨fit, mapError_eq_ok_iff.mpr hfit,
      bind_eq_ok_iff.mpr ⟨regions, mapError_eq_ok_iff.mpr hregions, rfl⟩⟩
  cases hbytes : (physicalMemory regions).bytes as with
  | ok bytes => exact absurd hastray ((Fit.exists_bytes_bootBlock_iff himage hregions).mp ⟨bytes, hbytes⟩)
  | error violation =>
    obtain ⟨region, hregion, rfl⟩ := Reference.unresolvable_of_bytes_mapped himage hbytes
    rw [Fit.bootBlock_eq_ok hregions, List.find?_map, Option.map_eq_some_iff] at hregion
    obtain ⟨e, he, rfl⟩ := hregion
    have hfirst : fit.firstAstray? image = some e := by
      rw [Fit.firstAstray?, ← he]
      simp only [Function.comp_def, FitEntry.resolves_iff, not_not]
    refine ⟨e, _, hfirst, Fit.dataRange?_of_mem (List.mem_of_find?_eq_some he), ?_⟩
    rw [fetch, locate, hlocate, ok_bind, pure_bind, bytes_references, References.bytes_singleton, hbytes]
    rfl

end DataSource

end MeasuredBoot
