import MeasuredBoot.Proofs.Reference.Native

/-!
# The bytes of references

The bytes of a reference are gathered from its artifact: the slices at the offsets of its ranges, in
ascending order of the ranges (`Ranges.gather`).

* `Reference.bytes_iff_gather`, `Reference.bytes_single_iff`: the bytes of a reference, and of a single range;
* `References.bytes_cons_eq_ok_iff`: those of several references;
* `Reference.bytes_mapped`: the bytes at addresses of the image.
-/

namespace MeasuredBoot

variable {as : Artifacts} {image : BiosImage}

/-- The bytes of a string at some ranges of offsets, one after the other. -/
def Ranges.gather (content : ByteArray) : Ranges → ByteArray
  | [] => ByteArray.empty
  | range :: rest =>
    Bytes.slice content range.offset.toNat range.length.toNat ++ gather content rest

theorem Ranges.gather_singleton (content : ByteArray) (range : Range) :
    gather content [range] = Bytes.slice content range.offset.toNat range.length.toNat := by
  rw [gather, gather, ByteArray.append_empty]

theorem Artifacts.bytesAt_map (kind : ArtifactKind) (ranges : Ranges) :
    as.bytesAt (ranges.map fun range => (kind, range)) = ranges.gather (as.contentOf kind) := by
  induction ranges with
  | nil => rfl
  | cons range rest ih => rw [List.map_cons, bytesAt, ih, slice, Ranges.gather]

theorem References.bytes_singleton (r : Reference) (as : Artifacts) : bytes [r] as = r.bytes as := by
  rw [References.bytes, List.foldlM_cons]
  cases r.bytes as with
  | error e => rfl
  | ok bytes =>
    show Except.ok (ByteArray.empty ++ bytes) = _
    rw [ByteArray.empty_append]

theorem References.bytes_cons_eq_ok_iff {r : Reference} {rs : References} {bytes : ByteArray} :
    References.bytes (r :: rs) as = .ok bytes ↔
      ∃ first rest, r.bytes as = .ok first ∧ rs.bytes as = .ok rest ∧ bytes = first ++ rest := by
  simp only [References.bytes_eq_ok_iff, Reference.bytes_eq_ok_iff, resolve, List.mapM_cons, bind_eq_ok_iff]
  constructor
  · rintro ⟨_, ⟨native, hnative, natives, hnatives, hpure⟩, hall, rfl⟩
    cases hpure
    rw [extents_cons] at hall ⊢
    obtain ⟨hhead, hrest⟩ := List.forall_mem_append.mp hall
    exact ⟨_, _, ⟨native, hnative, hhead, rfl⟩, ⟨natives, hnatives, hrest, rfl⟩, as.bytesAt_append _ _⟩
  · rintro ⟨_, _, ⟨native, hnative, hhead, rfl⟩, ⟨natives, hnatives, hrest, rfl⟩, rfl⟩
    refine ⟨native :: natives, ⟨native, hnative, natives, hnatives, rfl⟩, ?_, ?_⟩
    · exact List.forall_mem_append.mpr ⟨hhead, hrest⟩
    · rw [extents_cons, as.bytesAt_append]

/-- The bytes of a reference are gathered from the artifact, range by range in ascending order. -/
theorem Reference.bytes_iff_gather {r : Reference} {a : Artifact} (ha : as.find? r.artifact = some a)
    {bytes : ByteArray} : r.bytes as = .ok bytes ↔
      ∃ native, List.Forall₂ (fun range n => r.space.toNative a range = .ok n) r.ranges native ∧
        (∀ n ∈ native, n.offset.toNat + n.length.toNat ≤ a.size) ∧
        bytes = (Ranges.sort native).gather a.content := by
  have hhas (native : Ranges) : (∀ e ∈ (⟨⟨r.artifact, none⟩, Ranges.sort native⟩ : Reference).extents,
      as.Has e) ↔ ∀ n ∈ native, n.offset.toNat + n.length.toNat ≤ a.size := by
    simp only [extents, List.forall_mem_map, Artifacts.Has, Artifacts.contentOf_of_find? ha,
      (Ranges.perm_sort native).mem_iff]
    rfl
  simp only [bytes_eq_ok_iff, resolve, bind_eq_ok_iff, nativeRanges_eq_ok_iff]
  constructor
  · rintro ⟨_, ⟨_, ⟨b, native, hb, hall, rfl⟩, hpure⟩, hfits, rfl⟩
    cases hpure
    obtain rfl : a = b := Option.some.inj (ha.symm.trans hb)
    refine ⟨native, hall, (hhas native).mp hfits, ?_⟩
    rw [extents, as.bytesAt_map, Artifacts.contentOf_of_find? ha]
  · rintro ⟨native, hall, hfits, rfl⟩
    refine ⟨_, ⟨_, ⟨a, native, ha, hall, rfl⟩, rfl⟩, (hhas native).mpr hfits, ?_⟩
    rw [extents, as.bytesAt_map, Artifacts.contentOf_of_find? ha]

theorem Reference.bytes_single_iff {space : AddressSpace} {range : Range} {a : Artifact}
    (ha : as.find? space.artifact = some a) {bytes : ByteArray} :
    Reference.bytes ⟨space, [range]⟩ as = .ok bytes ↔ ∃ n, space.toNative a range = .ok n ∧
      n.offset.toNat + n.length.toNat ≤ a.size ∧
      bytes = Bytes.slice a.content n.offset.toNat n.length.toNat := by
  rw [bytes_iff_gather ha]
  constructor
  · rintro ⟨_, hall, hfits, rfl⟩
    obtain ⟨native, _, hnative, hnil, rfl⟩ := List.forall₂_cons_left_iff.mp hall
    cases hnil
    refine ⟨native, hnative, hfits native List.mem_cons_self, ?_⟩
    rw [Ranges.sort, List.mergeSort_singleton, Ranges.gather_singleton]
  · rintro ⟨native, hnative, hfits, rfl⟩
    refine ⟨[native], .cons hnative .nil, by rwa [List.forall_mem_singleton], ?_⟩
    rw [Ranges.sort, List.mergeSort_singleton, Ranges.gather_singleton]

theorem Artifacts.find?_image (himage : as.image = some image) :
    as.find? .biosImage = some (.biosImage image) := by
  rw [find?, himage]
  rfl

/-- The bytes at a range of addresses in the image. -/
theorem Reference.bytes_mapped {mapper : AddressMapper} {range : Range} {bytes : ByteArray}
    (himage : as.image = some image)
    (h : Reference.bytes ⟨⟨.biosImage, some mapper⟩, [range]⟩ as = .ok bytes) :
    ∃ offset, mapper.offsetOfBytes? image.size range.offset range.length.toNat = some offset ∧
      bytes = Bytes.slice image.bytes offset range.length.toNat := by
  obtain ⟨native, hnative, -, rfl⟩ := (bytes_single_iff (Artifacts.find?_image himage)).mp h
  obtain ⟨hoffset, hlength⟩ := AddressMapper.resolveRange_eq_ok_iff.mp hnative
  exact ⟨_, hoffset, by rw [hlength]; rfl⟩

end MeasuredBoot
