import MeasuredBoot.Proofs.Firmware.Readable

/-!
# Images that agree on what is measured

What a Firmware Interface Table says, and the bytes that are measured through it, depend on the pointer to the
table, the table and the regions of the initial boot block in the image alone. Nothing but the size matters of
the rest of the image.

* `Fit.Agrees`: images that are the same in these places;
* `Fit.read_congr`: they have the same table;
* `Reference.bytes_mapped_congr`: addresses have the same bytes, or none for the same reason;
* `DataSource.fetch_pcr0Data_congr`, `DataSource.fetch_ibb_congr`: the probes give the same data and bytes.
-/

namespace MeasuredBoot

open AddressMapper (physMem)

variable {as as' : Artifacts} {image other : BiosImage}

/-! ## The table -/

namespace Fit

variable {fit : Fit}

/-- The offset of the pointer to the table, from the end of the image. -/
def pointerDepth : Nat := 0x40

/-- Images of one size that have the same pointer to the table, the same table and the same bytes in the
regions that its entries for the initial boot block point to, where these lie in the image. -/
structure Agrees (fit : Fit) (image other : BiosImage) : Prop where
  size_eq : image.size = other.size
  pointer_eq : Bytes.slice image.bytes (image.size - pointerDepth) pointerSize =
    Bytes.slice other.bytes (image.size - pointerDepth) pointerSize
  bytes_eq : fit.bytes image = fit.bytes other
  region_eq : ∀ e ∈ fit.entriesOfType FitEntry.biosStartupModule, ∀ offset,
    physMem.offsetOfBytes? image.size e.address (16 * e.size.toNat) = some offset →
      Bytes.slice image.bytes offset (16 * e.size.toNat) = Bytes.slice other.bytes offset (16 * e.size.toNat)

/-- The pointer stands at its distance from the end of the image. -/
theorem pointer_offset {size offset : Nat}
    (h : physMem.offsetOfBytes? size pointerAddress pointerSize = some offset) :
    offset = size - pointerDepth ∧ offset + pointerSize ≤ size := by
  obtain ⟨hoffset, hle⟩ := AddressMapper.offsetOfBytes?_eq_some_iff.mp h
  obtain ⟨hsize, -, hplace⟩ := AddressMapper.offset?_physMem_eq_some_iff.mp hoffset
  refine ⟨?_, hle⟩
  rw [show pointerAddress.toNat = AddressMapper.memoryTop - pointerDepth from rfl] at hplace
  simp only [AddressMapper.memoryTop, pointerDepth, pointerSize] at hplace hsize hle ⊢
  omega

theorem readPointer_congr (hsize : image.size = other.size)
    (hpointer : Bytes.slice image.bytes (image.size - pointerDepth) pointerSize =
      Bytes.slice other.bytes (image.size - pointerDepth) pointerSize) :
    readPointer image = readPointer other := by
  rw [readPointer, readPointer, ← hsize]
  cases hoffset : physMem.offsetOfBytes? image.size pointerAddress pointerSize with
  | none => rfl
  | some offset =>
    obtain ⟨rfl, hle⟩ := pointer_offset hoffset
    dsimp only
    rw [← Bytes.word_slice hle, hpointer, Bytes.word_slice (hsize ▸ hle)]

theorem Agrees.get_eq (hfit : read image = .ok fit) (h : fit.Agrees image other) {k : Nat}
    (hk : k < 16 * (fit.entries.length + 1)) :
    Bytes.get image.bytes (fit.offset + k) = Bytes.get other.bytes (fit.offset + k) := by
  obtain ⟨-, hin⟩ := of_read hfit
  have hin' : fit.offset + 16 * (fit.entries.length + 1) ≤ other.size := h.size_eq ▸ hin
  rw [Bytes.get_of_slice hin h.bytes_eq hk]
  exact (Bytes.get_of_slice hin' rfl hk).symm

/-- The table is read of all images that have it. -/
theorem read_congr (hfit : read image = .ok fit) (h : fit.Agrees image other) : read other = .ok fit := by
  obtain ⟨-, hin⟩ := of_read hfit
  have hin' : fit.offset + 16 * (fit.entries.length + 1) ≤ other.size := h.size_eq ▸ hin
  have hsame (k : Nat) (hk : k < 16 * (fit.entries.length + 1)) := h.get_eq hfit hk
  obtain ⟨address, haddress, hread⟩ := exists_ok_of_bind hfit
  rw [read, ← readPointer_congr h.size_eq h.pointer_eq, haddress, ok_bind, ← h.size_eq]
  dsimp only at hread ⊢
  split at hread
  · cases hread
  rename_i offset hoffset
  split at hread
  · cases hread
  rename_i hsignature
  split at hread
  · cases hread
  rename_i hcount
  cases hread
  -- the header and the entries are those of the window in which the images are the same
  simp only [List.length_map, List.length_range] at hin hin' hsame
  have hdecode (i : Nat) (hi : i < (FitEntry.decode image.bytes offset).size.toNat) :
      FitEntry.decode other.bytes (offset + FitEntry.byteSize * i) =
        FitEntry.decode image.bytes (offset + FitEntry.byteSize * i) := by
    refine FitEntry.decode_congr fun k hk => ?_
    rw [Nat.add_assoc]
    simp only [FitEntry.byteSize] at hk ⊢
    exact (hsame (16 * i + k) (by omega)).symm
  have hheader := hdecode 0 (by omega)
  rw [Nat.mul_zero, Nat.add_zero] at hheader
  have hsize : signature.size = 8 := by decide
  have hsignature' : Bytes.slice other.bytes offset signature.size =
      Bytes.slice image.bytes offset signature.size := by
    simp only [BiosImage.size] at hin hin'
    exact Bytes.slice_congr (by omega) (by omega) fun k hk => (hsame k (by omega)).symm
  rw [hsignature', if_neg hsignature, hheader, if_neg hcount]
  refine congrArg Except.ok (congrArg (Fit.mk address offset) (List.map_congr_left fun i hi => ?_))
  have := List.mem_range.mp hi
  exact hdecode (i + 1) (by omega)

end Fit

/-! ## Bytes -/

theorem Ranges.gather_congr {a b : ByteArray} {ranges : Ranges}
    (h : ∀ range ∈ ranges, Bytes.slice a range.offset.toNat range.length.toNat =
      Bytes.slice b range.offset.toNat range.length.toNat) : ranges.gather a = ranges.gather b := by
  induction ranges with
  | nil => rfl
  | cons range rest ih =>
    obtain ⟨hrange, hrest⟩ := List.forall_mem_cons.mp h
    rw [gather, gather, hrange, ih hrest]

/-- Addresses of images of one size have the same bytes if the images are the same where these addresses fall,
or they have none for the same reason. -/
theorem Reference.bytes_mapped_congr (himage : as.image = some image) (hother : as'.image = some other)
    (hsize : image.size = other.size) {mapper : AddressMapper} {ranges : Ranges}
    (h : ∀ range ∈ ranges, ∀ offset,
      mapper.offsetOfBytes? image.size range.offset range.length.toNat = some offset →
        Bytes.slice image.bytes offset range.length.toNat = Bytes.slice other.bytes offset range.length.toNat) :
    Reference.bytes ⟨⟨.biosImage, some mapper⟩, ranges⟩ as =
      Reference.bytes ⟨⟨.biosImage, some mapper⟩, ranges⟩ as' := by
  have hsize' : (Artifact.biosImage image).size = (Artifact.biosImage other).size := hsize
  have hkind : (Artifact.biosImage image).kind = (Artifact.biosImage other).kind := rfl
  have hsame (range : Range) := mapper.resolveRange_congr hkind hsize' range
  cases hbytes : Reference.bytes ⟨⟨.biosImage, some mapper⟩, ranges⟩ as with
  | ok bytes =>
    obtain ⟨native, hall, hfits, rfl⟩ := (bytes_iff_gather (Artifacts.find?_image himage)).mp hbytes
    refine ((bytes_iff_gather (Artifacts.find?_image hother)).mpr ⟨native, ?_, hsize' ▸ hfits, ?_⟩).symm
    · exact hall.imp fun range _ => (hsame range).symm.trans
    · refine Ranges.gather_congr fun n hn => ?_
      obtain ⟨i, rfl⟩ := List.get_of_mem ((Ranges.perm_sort native).mem_iff.mp hn)
      have hrange := hall.get (Nat.lt_of_lt_of_eq i.isLt hall.length_eq.symm) i.isLt
      obtain ⟨hoffset, hlength⟩ := AddressMapper.resolveRange_eq_ok_iff.mp hrange
      rw [hlength]
      exact h _ (List.get_mem ..) _ hoffset
  | error violation =>
    obtain ⟨range, hrange, rfl⟩ := Reference.unresolvable_of_bytes_mapped himage hbytes
    cases hbytes' : Reference.bytes ⟨⟨.biosImage, some mapper⟩, ranges⟩ as' with
    | ok bytes =>
      have hall := (exists_bytes_mapped_iff hother).mp ⟨bytes, hbytes'⟩
      rw [← hsize] at hall
      obtain ⟨_, hbytes''⟩ := (exists_bytes_mapped_iff himage).mpr hall
      cases hbytes.symm.trans hbytes''
    | error violation' =>
      obtain ⟨range', hrange', rfl⟩ := Reference.unresolvable_of_bytes_mapped hother hbytes'
      rw [← hsize, hrange] at hrange'
      rw [Option.some.inj hrange', hsize]

/-! ## What the probes give -/

/-- Whether a register is found depends on whether it is present. -/
theorem Register.locate_congr {id : Register} {rs rs' : Registers} (hsnapshot : as.snapshot = some rs)
    (hsnapshot' : as'.snapshot = some rs') (h : rs.get? id = rs'.get? id) : id.locate as = id.locate as' := by
  simp only [locate, Artifacts.getRegisters, hsnapshot, hsnapshot', Except.mapError, ok_bind, h]

namespace DataSource

variable {fit : Fit} {rs rs' : Registers}

/-- The same data with the same bytes, or with none for the same reason. -/
theorem fetch_congr {source : DataSource} (hlocate : source.locate as = source.locate as')
    (hbytes : ∀ data, source.locate as = .ok data → data.bytes as = data.bytes as') :
    source.fetch as = source.fetch as' := by
  rw [fetch, fetch, ← hlocate]
  cases hdata : source.locate as with
  | error e => rfl
  | ok data => rw [ok_bind, ok_bind, hbytes data hdata]

theorem locate_probe_congr {p : Probe} (himage : as.image = some image) (hother : as'.image = some other)
    (h : p.locateIn image as = p.locateIn other as') : locate (.probe p) as = locate (.probe p) as' := by
  simp only [locate, Probe.locate, Artifacts.getImage, himage, hother, Except.mapError, ok_bind, h]

theorem bytes_of_fetch_pcr0Data {status : UInt64} {data : Data} {bytes : ByteArray}
    (himage : as.image = some image) (hsnapshot : as.snapshot = some rs)
    (hstatus : rs.get? .acmPolicyStatus = some status) (hfit : Fit.read image = .ok fit)
    (h : fetch (.probe .pcr0Data) as = .ok (data, bytes)) :
    bytes = Bytes.ofWord status.toNat 8 ++ fit.bytes image := by
  obtain ⟨_, _, _, _, himage', hsnapshot', hstatus', hfit', rfl⟩ := of_fetch_pcr0Data h
  cases himage.symm.trans himage'
  cases hsnapshot.symm.trans hsnapshot'
  cases hstatus.symm.trans hstatus'
  cases hfit.symm.trans hfit'
  rfl

/-- The policy status and the table, or the problem that there is no policy status. -/
theorem fetch_pcr0Data_congr (himage : as.image = some image) (hother : as'.image = some other)
    (hsnapshot : as.snapshot = some rs) (hsnapshot' : as'.snapshot = some rs')
    (hfit : Fit.read image = .ok fit) (hagrees : fit.Agrees image other)
    (hstatus : rs.get? .acmPolicyStatus = rs'.get? .acmPolicyStatus) :
    fetch (.probe .pcr0Data) as = fetch (.probe .pcr0Data) as' := by
  have hfit' := Fit.read_congr hfit hagrees
  have hregister := Register.locate_congr hsnapshot hsnapshot' hstatus
  have hlocate : locate (.probe .pcr0Data) as = locate (.probe .pcr0Data) as' :=
    locate_probe_congr himage hother (by rw [Probe.locateIn, Probe.locateIn, hfit, hfit', hregister])
  cases hvalue : rs.get? .acmPolicyStatus with
  | none =>
    -- nothing is located
    refine fetch_congr hlocate fun data hdata => ?_
    obtain ⟨refs, hrefs, -⟩ := exists_ok_of_bind hdata
    obtain ⟨_, -, hrefs⟩ := Probe.locate_eq_ok_iff.mp hrefs
    obtain ⟨_, -, hrefs⟩ := exists_ok_of_bind hrefs
    obtain ⟨_, hfound, -⟩ := exists_ok_of_bind hrefs
    obtain ⟨⟨_, _, hrs, hsome⟩, -⟩ := Register.of_locate hfound
    cases hsnapshot.symm.trans hrs
    cases hvalue.symm.trans hsome
  | some status =>
    have hvalue' := hstatus.symm.trans hvalue
    obtain ⟨data, bytes, hfetch⟩ := exists_fetch_pcr0Data himage hsnapshot (by rw [hvalue]; rfl) hfit
    obtain ⟨data', bytes', hfetch'⟩ := exists_fetch_pcr0Data hother hsnapshot' (by rw [hvalue']; rfl) hfit'
    have hdata := (fetch_eq_ok_iff.mp hfetch).1
    have hdata' := hlocate.trans (fetch_eq_ok_iff.mp hfetch').1
    rw [hfetch, hfetch', Except.ok.inj (hdata.symm.trans hdata'),
      bytes_of_fetch_pcr0Data himage hsnapshot hvalue hfit hfetch,
      bytes_of_fetch_pcr0Data hother hsnapshot' hvalue' hfit' hfetch', hagrees.bytes_eq]

/-- The initial boot block, or the problem that there is no entry for it or that one of them is astray. -/
theorem fetch_ibb_congr (himage : as.image = some image) (hother : as'.image = some other)
    (hfit : Fit.read image = .ok fit) (hagrees : fit.Agrees image other) :
    fetch (.probe .ibb) as = fetch (.probe .ibb) as' := by
  have hfit' := Fit.read_congr hfit hagrees
  have hlocate : locate (.probe .ibb) as = locate (.probe .ibb) as' :=
    locate_probe_congr himage hother (by rw [Probe.locateIn, Probe.locateIn, hfit, hfit'])
  refine fetch_congr hlocate fun data hdata => ?_
  obtain ⟨refs, hrefs, hpure⟩ := exists_ok_of_bind hdata
  cases hpure
  obtain ⟨_, himage', hrefs⟩ := Probe.locate_eq_ok_iff.mp hrefs
  cases himage.symm.trans himage'
  obtain ⟨_, hread, hrefs⟩ := exists_ok_of_bind hrefs
  cases hfit.symm.trans (mapError_eq_ok_iff.mp hread)
  obtain ⟨regions, hregions, hrefs⟩ := exists_ok_of_bind hrefs
  cases hrefs
  rw [bytes_references, bytes_references, References.bytes_singleton, References.bytes_singleton]
  refine Reference.bytes_mapped_congr himage hother hagrees.size_eq ?_
  rw [Fit.bootBlock_eq_ok (mapError_eq_ok_iff.mp hregions), List.forall_mem_map]
  intro e he offset hoffset
  rw [FitEntry.toNat_regionSize] at hoffset ⊢
  exact hagrees.region_eq e he offset hoffset

end DataSource

end MeasuredBoot
