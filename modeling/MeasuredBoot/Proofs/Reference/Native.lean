import MeasuredBoot.Proofs.AddressMapper.Merging
import MeasuredBoot.Proofs.Artifact.Extents
import MeasuredBoot.Proofs.Reference.Offsets

/-!
# Merging and the offsets of the artifact

References are merged in their spaces, and denote offsets of their artifacts (`References.CoversNative`).

* `Reference.exists_nativeRanges_iff`, `Reference.coversNative_iff`: when the ranges of a reference have
  offsets, and which ones, range by range;
* `References.sortAndMerge_native`: merging keeps the offsets. Through the flash window it does so unless
  ranges meet at opposite ends of the window or reach past the last word.
-/

namespace MeasuredBoot

/-! ## One range -/

namespace AddressSpace

variable {space : AddressSpace} {a : Artifact} {range native : Range}

/-- Whether a range of a space has offsets of an artifact of a size. -/
def Maps (space : AddressSpace) (size : Nat) (range : Range) : Prop :=
  match space.mapper with
  | none => True
  | some mapper => mapper.Resolves size range

/-- Whether an offset of an artifact of a size is one of a range of a space. -/
def LandsOn (space : AddressSpace) (size : Nat) (range : Range) (y : Nat) : Prop :=
  match space.mapper with
  | none => range.Covers y
  | some mapper => ∃ x, range.Spans x ∧ mapper.offset? size x = some y

/-- The range of offsets of a range of a space. -/
def toNative (space : AddressSpace) (a : Artifact) (range : Range) : Except ContractViolation Range :=
  match space.mapper with
  | none => .ok range
  | some mapper => mapper.resolveRange a range

theorem exists_toNative_iff : (∃ native, space.toNative a range = .ok native) ↔
    space.Maps a.size range := by
  simp only [toNative, Maps]
  cases space.mapper with
  | none => exact ⟨fun _ => trivial, fun _ => ⟨range, rfl⟩⟩
  | some mapper => exact AddressMapper.exists_resolveRange_iff

theorem covers_toNative_iff (h : space.toNative a range = .ok native) (y : Nat) :
    native.Covers y ↔ space.LandsOn a.size range y := by
  simp only [toNative, LandsOn] at h ⊢
  cases hmapper : space.mapper with
  | none =>
    rw [hmapper] at h
    rw [Except.ok.inj h]
  | some mapper =>
    rw [hmapper] at h
    exact AddressMapper.covers_native_iff h y

theorem exists_landsOn_iff {mapper : AddressMapper} (hmapper : space.mapper = some mapper) (ranges : Ranges)
    (size y : Nat) : (∃ range ∈ ranges, space.LandsOn size range y) ↔
      ∃ x, ranges.Spans x ∧ mapper.offset? size x = some y := by
  simp only [LandsOn, hmapper, Ranges.Spans]
  constructor
  · rintro ⟨range, hrange, x, hx, hy⟩
    exact ⟨x, ⟨range, hrange, hx⟩, hy⟩
  · rintro ⟨x, ⟨range, hrange, hx⟩, hy⟩
    exact ⟨range, hrange, x, hx, hy⟩

/-- Merging the ranges of a space keeps their offsets. -/
theorem exists_landsOn_sortAndMerge {ranges : Ranges} (htop : space.mapper ≠ none → ranges.TopApart)
    (size y : Nat) : (∃ range ∈ ranges.sortAndMerge, space.LandsOn size range y) ↔
      ∃ range ∈ ranges, space.LandsOn size range y := by
  cases hmapper : space.mapper with
  | none =>
    simp only [LandsOn, hmapper]
    exact Ranges.covers_sortAndMerge ranges y
  | some mapper =>
    have hspans := Ranges.spans_sortAndMerge (htop (by rw [hmapper]; exact Option.some_ne_none mapper))
    rw [exists_landsOn_iff hmapper, exists_landsOn_iff hmapper]
    simp only [hspans]

end AddressSpace

/-! ## One reference -/

namespace Reference

variable {r : Reference} {as : Artifacts} {a : Artifact}

/-- The offsets of the artifact that a reference denotes. -/
def CoversNative (r : Reference) (as : Artifacts) (y : Nat) : Prop :=
  ∃ ranges, r.nativeRanges as = .ok ranges ∧ Ranges.Covers ranges y

/-- The ranges of a reference are mapped one by one, then sorted. -/
theorem nativeRanges_eq_ok_iff {ranges : Ranges} : r.nativeRanges as = .ok ranges ↔
    ∃ a native, as.find? r.artifact = some a ∧
      List.Forall₂ (fun range n => r.space.toNative a range = .ok n) r.ranges native ∧
      ranges = Ranges.sort native := by
  have hmap (a : Artifact) : r.ranges.mapM (r.space.toNative a) = match r.mapper with
      | none => .ok r.ranges
      | some mapper => mapper.resolve a r.ranges := by
    rw [show r.mapper = r.space.mapper from rfl]
    cases hmapper : r.space.mapper with
    | none =>
      refine mapM_eq_ok_iff.mpr (List.forall₂_same.mpr fun range _ => ?_)
      rw [AddressSpace.toNative, hmapper]
    | some mapper =>
      have hsame : r.space.toNative a = mapper.resolveRange a := by
        funext range
        rw [AddressSpace.toNative, hmapper]
      rw [hsame]
      rfl
  have hnative : r.nativeRanges as =
      (do return Ranges.sort (← r.ranges.mapM (r.space.toNative (← as.get r.artifact)))) := by
    simp only [nativeRanges, hmap]
    congr 1
    funext a
    cases r.mapper <;> rfl
  simp only [hnative, bind_eq_ok_iff, Artifacts.get_eq_ok_iff, mapM_eq_ok_iff]
  constructor
  · rintro ⟨a, ha, native, hall, hsort⟩
    exact ⟨a, native, ha, hall, (Except.ok.inj hsort).symm⟩
  · rintro ⟨a, native, ha, hall, rfl⟩
    exact ⟨a, ha, native, hall, rfl⟩

theorem covers_of_forall₂ {space : AddressSpace} {ranges native : Ranges}
    (h : List.Forall₂ (fun range n => space.toNative a range = .ok n) ranges native) (y : Nat) :
    Ranges.Covers native y ↔ ∃ range ∈ ranges, space.LandsOn a.size range y := by
  induction h with
  | nil => simp
  | cons hhead _ ih => simp [AddressSpace.covers_toNative_iff hhead, ih]

/-- The ranges of a reference have offsets if each of them has. -/
theorem exists_nativeRanges_iff : (∃ ranges, r.nativeRanges as = .ok ranges) ↔
    ∃ a, as.find? r.artifact = some a ∧ ∀ range ∈ r.ranges, r.space.Maps a.size range := by
  simp only [nativeRanges_eq_ok_iff, ← AddressSpace.exists_toNative_iff]
  constructor
  · rintro ⟨-, a, native, ha, hall, -⟩
    refine ⟨a, ha, fun range hrange => ?_⟩
    obtain ⟨i, hi, rfl⟩ := List.getElem_of_mem hrange
    exact ⟨_, hall.get hi (hall.length_eq ▸ hi)⟩
  · rintro ⟨a, ha, hall⟩
    choose! native hnative using hall
    exact ⟨_, a, r.ranges.map native, ha, List.forall₂_map_right_iff.mpr (List.forall₂_same.mpr hnative), rfl⟩

/-- A reference that has offsets denotes those of its ranges. -/
theorem coversNative_iff (hfind : as.find? r.artifact = some a)
    (hnative : ∃ ranges, r.nativeRanges as = .ok ranges) (y : Nat) :
    r.CoversNative as y ↔ ∃ range ∈ r.ranges, r.space.LandsOn a.size range y := by
  have hcovers {ranges : Ranges} (h : r.nativeRanges as = .ok ranges) :
      Ranges.Covers ranges y ↔ ∃ range ∈ r.ranges, r.space.LandsOn a.size range y := by
    obtain ⟨b, native, hb, hall, rfl⟩ := nativeRanges_eq_ok_iff.mp h
    obtain rfl : a = b := Option.some.inj (hfind.symm.trans hb)
    rw [Ranges.covers_sort, covers_of_forall₂ hall]
  constructor
  · rintro ⟨ranges, h, hy⟩
    exact (hcovers h).mp hy
  · intro hy
    obtain ⟨ranges, h⟩ := hnative
    exact ⟨ranges, h, (hcovers h).mpr hy⟩

end Reference

/-! ## Merging -/

namespace References

open AddressMapper (flashWindow)

variable {A : References} {as : Artifacts} {a : Artifact} {kind : ArtifactKind}

/-- All references have offsets. -/
def Native (A : References) (as : Artifacts) : Prop :=
  ∀ r ∈ A, ∃ ranges, r.nativeRanges as = .ok ranges

/-- The offsets of the artifact of a kind that the references denote. -/
def CoversNative (A : References) (as : Artifacts) (kind : ArtifactKind) (y : Nat) : Prop :=
  ∃ r ∈ A, r.artifact = kind ∧ r.CoversNative as y

/-- No two ranges into the flash window of an artifact have bytes at its opposite ends and meet. -/
def NoneMeetAtEdge (A : References) : Prop :=
  ∀ kind, Ranges.NoneMeetAtEdge (A.rangesIn ⟨kind, some .amdFlash⟩)

/-- Ranges into the flash window of an artifact that reach past the last word start after all others have
stopped. -/
def TopApart (A : References) : Prop := ∀ kind, Ranges.TopApart (A.rangesIn ⟨kind, some .amdFlash⟩)

/-- References have offsets if, space by space, the ranges there have. -/
theorem Native.maps (h : A.Native as) {space : AddressSpace} (hne : A.rangesIn space ≠ []) :
    ∃ a, as.find? space.artifact = some a ∧ ∀ range ∈ A.rangesIn space, space.Maps a.size range := by
  have hmaps {range : Range} (hrange : range ∈ A.rangesIn space) :
      ∃ a, as.find? space.artifact = some a ∧ space.Maps a.size range := by
    obtain ⟨r, hr, rfl, hmem⟩ := mem_rangesIn.mp hrange
    obtain ⟨a, ha, hall⟩ := Reference.exists_nativeRanges_iff.mp (h r hr)
    exact ⟨a, ha, hall range hmem⟩
  obtain ⟨first, hfirst⟩ := List.exists_mem_of_ne_nil _ hne
  obtain ⟨a, ha, -⟩ := hmaps hfirst
  refine ⟨a, ha, fun range hrange => ?_⟩
  obtain ⟨b, hb, hmap⟩ := hmaps hrange
  rwa [Option.some.inj (ha.symm.trans hb)]

/-- References with offsets denote those of the ranges in each space. -/
theorem Native.coversNative_iff (h : A.Native as) (ha : as.find? kind = some a) (y : Nat) :
    A.CoversNative as kind y ↔ ∃ space : AddressSpace, space.artifact = kind ∧
      ∃ range ∈ A.rangesIn space, space.LandsOn a.size range y := by
  simp only [CoversNative, mem_rangesIn]
  constructor
  · rintro ⟨r, hr, rfl, hy⟩
    obtain ⟨range, hrange, hlands⟩ := (Reference.coversNative_iff ha (h r hr) y).mp hy
    exact ⟨r.space, rfl, range, ⟨r, hr, rfl, hrange⟩, hlands⟩
  · rintro ⟨-, hkind, range, ⟨r, hr, rfl, hrange⟩, hlands⟩
    cases hkind
    exact ⟨r, hr, rfl, (Reference.coversNative_iff ha (h r hr) y).mpr ⟨range, hrange, hlands⟩⟩

theorem Native.noneMeetAtEdge (h : A.sortAndMerge.Native as) : A.NoneMeetAtEdge := by
  intro kind
  by_cases hnil : A.rangesIn ⟨kind, some .amdFlash⟩ = []
  · rw [hnil]
    exact fun a ha => absurd ha List.not_mem_nil
  · have hmerged := rangesIn_sortAndMerge A ⟨kind, some .amdFlash⟩
    have hne : A.sortAndMerge.rangesIn ⟨kind, some .amdFlash⟩ ≠ [] := by
      rw [hmerged]
      exact fun h => hnil (Ranges.sortAndMerge_eq_nil_iff.mp h)
    obtain ⟨a, -, hmaps⟩ := h.maps hne
    rw [hmerged] at hmaps
    exact Ranges.noneMeetAtEdge_of_resolves hmaps

/-- Merging keeps that references have offsets, unless they meet at an edge of the flash window. -/
theorem Native.sortAndMerge (h : A.Native as) (hedge : A.NoneMeetAtEdge) : A.sortAndMerge.Native as := by
  intro r hr
  obtain ⟨hne, hranges⟩ := of_mem_sortAndMerge hr
  have hsome : A.rangesIn r.space ≠ [] := by
    rintro hnil
    rw [hnil] at hranges
    exact hne hranges
  obtain ⟨a, ha, hmaps⟩ := h.maps hsome
  refine Reference.exists_nativeRanges_iff.mpr ⟨a, ha, ?_⟩
  rw [hranges]
  obtain ⟨⟨kind, _ | mapper⟩, ranges⟩ := r
  · exact fun _ _ => trivial
  · refine Ranges.resolves_sortAndMerge hmaps ?_
    rintro rfl
    exact hedge kind

/-- Ranges below 4 GiB do not reach past the last word. -/
theorem Native.not_saturates (h : A.Native as) {r : Range} (hr : r ∈ A.rangesIn ⟨kind, some .physMem⟩) :
    ¬r.Saturates := by
  intro hsaturates
  obtain ⟨a, -, hmaps⟩ := h.maps (List.ne_nil_of_mem hr)
  have hend := (AddressMapper.resolves_physMem_iff.mp (hmaps r hr)).2.2.2
  have hlt : AddressMapper.memoryTop < UInt64.size := by decide
  exact absurd (Nat.le_trans hsaturates hend) (Nat.not_le.mpr hlt)

theorem Native.topApart (h : A.Native as) (htop : A.TopApart) {space : AddressSpace}
    (hmapper : space.mapper ≠ none) : Ranges.TopApart (A.rangesIn space) := by
  obtain ⟨kind, _ | _ | _⟩ := space
  · exact absurd rfl hmapper
  · exact fun r hr hsaturates => absurd hsaturates (h.not_saturates hr)
  · exact htop kind

theorem CoversNative.exists_find? {y : Nat} (h : A.CoversNative as kind y) :
    ∃ a, as.find? kind = some a := by
  obtain ⟨r, -, rfl, ranges, hranges, -⟩ := h
  obtain ⟨a, ha, -⟩ := Reference.exists_nativeRanges_iff.mp ⟨ranges, hranges⟩
  exact ⟨a, ha⟩

/-- Merging keeps the offsets, unless a range into the flash window that reaches past the last word is
joined to another one. -/
theorem Native.coversNative_sortAndMerge (h : A.Native as) (hmerged : A.sortAndMerge.Native as)
    (htop : A.TopApart) (kind : ArtifactKind) (y : Nat) :
    A.sortAndMerge.CoversNative as kind y ↔ A.CoversNative as kind y := by
  have hsame {a : Artifact} (ha : as.find? kind = some a) :
      A.sortAndMerge.CoversNative as kind y ↔ A.CoversNative as kind y := by
    rw [h.coversNative_iff ha, hmerged.coversNative_iff ha]
    refine exists_congr fun space => and_congr_right fun _ => ?_
    rw [rangesIn_sortAndMerge]
    exact AddressSpace.exists_landsOn_sortAndMerge (h.topApart htop) a.size y
  constructor
  · intro hy
    obtain ⟨a, ha⟩ := hy.exists_find?
    exact (hsame ha).mp hy
  · intro hy
    obtain ⟨a, ha⟩ := hy.exists_find?
    exact (hsame ha).mpr hy

/-- References that have offsets still have them after merging if, and only if, no two ranges into the
flash window of an artifact meet with bytes at its opposite ends. They denote the same offsets as before, as
long as no range into the window that reaches past the last word is joined to another one. -/
theorem sortAndMerge_native (h : A.Native as) :
    (A.sortAndMerge.Native as ↔ A.NoneMeetAtEdge) ∧
      (A.NoneMeetAtEdge → A.TopApart → ∀ kind y,
        A.sortAndMerge.CoversNative as kind y ↔ A.CoversNative as kind y) :=
  ⟨⟨Native.noneMeetAtEdge, h.sortAndMerge⟩,
    fun hedge htop => h.coversNative_sortAndMerge (h.sortAndMerge hedge) htop⟩

/-- An image of `size` zero bytes, alone. -/
def blank (size : Nat) (h : size < UInt64.size / 2) : Artifacts := Artifacts.put {} (blankImage size h)

/-- References to firmware through a mapper. -/
def mappedBy (mapper : AddressMapper) (ranges : Ranges) : References :=
  [⟨⟨.biosImage, some mapper⟩, ranges⟩]

section MappedBy

variable {mapper : AddressMapper} {ranges : Ranges} {size : Nat} {h : size < UInt64.size / 2}

theorem find?_blank : (blank size h).find? .biosImage = some (blankImage size h) := Artifacts.find?_put_self ..

theorem native_mappedBy_iff : (mappedBy mapper ranges).Native (blank size h) ↔
    ∀ range ∈ ranges, mapper.Resolves size range := by
  simp only [Native, mappedBy, List.forall_mem_singleton, Reference.exists_nativeRanges_iff, find?_blank,
    Option.some.injEq, exists_eq_left', size_blankImage]
  exact Iff.rfl

theorem coversNative_mappedBy_iff (hnative : (mappedBy mapper ranges).Native (blank size h)) (y : Nat) :
    (mappedBy mapper ranges).CoversNative (blank size h) .biosImage y ↔
      ∃ x, ranges.Spans x ∧ mapper.offset? size x = some y := by
  have hreference := Reference.coversNative_iff find?_blank (hnative _ List.mem_cons_self) y
  rw [AddressSpace.exists_landsOn_iff rfl, size_blankImage] at hreference
  simp only [CoversNative, mappedBy, List.mem_singleton, exists_eq_left, true_and]
  exact hreference

theorem rangesIn_mappedBy (space : AddressSpace) :
    (mappedBy mapper ranges).rangesIn space = if ⟨.biosImage, some mapper⟩ = space then ranges else [] := by
  rw [mappedBy, rangesIn_cons]
  simp [Reference.space, rangesIn]

end MappedBy

/-- Ranges that touch, ranges on both sides of an edge of the window, and one with the last word. -/
def windowReferences : References :=
  mappedBy .amdFlash
    [⟨0xFF000010, 0x10⟩, ⟨0xFF000000, 0x10⟩, ⟨0xFEFFFFF0, 0x08⟩, ⟨0xFFFFFFFFFFFFFFF0, 0x10⟩]

theorem sortAndMerge_native_windowReferences :
    windowReferences.Native (blank flashWindow (by decide)) ∧
      windowReferences.NoneMeetAtEdge ∧ windowReferences.TopApart ∧
      windowReferences.sortAndMerge.Native (blank flashWindow (by decide)) ∧
      ∀ kind y, windowReferences.sortAndMerge.CoversNative (blank flashWindow (by decide)) kind y ↔
        windowReferences.CoversNative (blank flashWindow (by decide)) kind y := by
  have hnative : windowReferences.Native (blank flashWindow (by decide)) :=
    native_mappedBy_iff.mpr (by decide)
  have hedge : windowReferences.NoneMeetAtEdge := by
    intro kind
    rw [windowReferences, rangesIn_mappedBy]
    unfold Ranges.NoneMeetAtEdge
    cases kind <;> decide
  have htop : windowReferences.TopApart := by
    intro kind
    rw [windowReferences, rangesIn_mappedBy]
    unfold Ranges.TopApart Range.Saturates
    cases kind <;> decide
  obtain ⟨hmerged, hcovers⟩ := sortAndMerge_native hnative
  exact ⟨hnative, hedge, htop, hmerged.mpr hedge, hcovers hedge htop⟩

/-- Ranges at opposite ends of the flash window, with adjacent addresses. -/
def edgeReferences : References := mappedBy .amdFlash [⟨0xFFFFF0, 0x10⟩, ⟨0x1000000, 0x10⟩]

/-- The last bytes of the flash window, twice. -/
def topReferences : References :=
  mappedBy .amdFlash [⟨0xFFFFFFFFFFFFFFF0, 0x10⟩, ⟨0xFFFFFFFFFFFFFFF0, 0x10⟩]

/-- Of an image as large as the flash window, ranges that meet at its ends have no offsets after merging,
and ranges with the last word that are joined lose the last offset. -/
theorem not_sortAndMerge_native :
    (edgeReferences.Native (blank flashWindow (by decide)) ∧
      ¬edgeReferences.sortAndMerge.Native (blank flashWindow (by decide))) ∧
    topReferences.Native (blank flashWindow (by decide)) ∧
      topReferences.sortAndMerge.Native (blank flashWindow (by decide)) ∧
      topReferences.CoversNative (blank flashWindow (by decide)) .biosImage 0xFFFFFF ∧
      ¬topReferences.sortAndMerge.CoversNative (blank flashWindow (by decide)) .biosImage 0xFFFFFF := by
  have hedge : edgeReferences.sortAndMerge = mappedBy .amdFlash [⟨0xFFFFF0, 0x20⟩] := by cbv
  have htop : topReferences.sortAndMerge = mappedBy .amdFlash [⟨0xFFFFFFFFFFFFFFF0, 0x0F⟩] := by cbv
  have hnative : topReferences.Native (blank flashWindow (by decide)) :=
    native_mappedBy_iff.mpr (by decide)
  have hmerged : (mappedBy .amdFlash [⟨0xFFFFFFFFFFFFFFF0, 0x0F⟩]).Native
      (blank flashWindow (by decide)) := native_mappedBy_iff.mpr (by decide)
  rw [hedge, htop]
  refine ⟨⟨native_mappedBy_iff.mpr (by decide), fun h => ?_⟩, hnative, hmerged, ?_, fun h => ?_⟩
  · exact absurd (native_mappedBy_iff.mp h) (by decide)
  · refine (coversNative_mappedBy_iff hnative _).mpr ⟨0xFFFFFFFFFFFFFFFF, ?_, by decide⟩
    exact ⟨⟨0xFFFFFFFFFFFFFFF0, 0x10⟩, by decide, by unfold Range.Spans; decide⟩
  · obtain ⟨x, ⟨range, hrange, hfirst, hlast⟩, hx⟩ := (coversNative_mappedBy_iff hmerged _).mp h
    obtain rfl := List.mem_singleton.mp hrange
    have hoffset := (AddressMapper.offset?_amdFlash_eq_some_iff.mp hx).1
    change 0xFFFFFFFFFFFFFFF0 ≤ x.toNat at hfirst
    change x.toNat < 0xFFFFFFFFFFFFFFF0 + 0x0F at hlast
    change 0 + x.toNat % 0x1000000 = 0xFFFFFF at hoffset
    omega

end References

end MeasuredBoot
