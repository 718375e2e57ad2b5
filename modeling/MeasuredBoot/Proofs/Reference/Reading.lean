import MeasuredBoot.Proofs.Reference.Bytes

/-!
# Reading references

What a reference reads goes by the offsets of its ranges alone. The order in which the ranges were given
does not show, and neither does the mapper once the reference was resolved.

* `Ranges.Sorted`: the order of reading; `Ranges.sort_eq_iff`: there is one such arrangement of ranges;
* `Reference.bytes_of_perm`: the ranges of a reference in another order;
* `Reference.of_resolve`, `References.of_resolve`: references that were resolved;
* `References.bytes_canonical`: when references can be read, with what, and the same after resolving.
-/

namespace MeasuredBoot

namespace Ranges

variable {rs ss : Ranges}

/-- The ranges ascend by offset, and by length where they start together. -/
def Sorted (rs : Ranges) : Prop :=
  rs.Pairwise fun a b => a.offset < b.offset ∨ a.offset = b.offset ∧ a.length ≤ b.length

theorem sorted_iff : rs.Sorted ↔ rs.Pairwise (Range.le · · = true) := by
  refine List.Pairwise.iff fun a b => ?_
  rw [Range.le_iff, UInt64.lt_iff_toNat_lt, UInt64.le_iff_toNat_le, UInt64.toNat_inj]

theorem sort_sort (rs : Ranges) : sort (sort rs) = sort rs := sort_of_pairwise (pairwise_sort rs)

/-- Of all arrangements of some ranges, sorting gives the one that ascends. -/
theorem sort_eq_iff : sort rs = ss ↔ ss.Perm rs ∧ ss.Sorted := by
  rw [sorted_iff]
  constructor
  · rintro rfl
    exact ⟨perm_sort rs, pairwise_sort rs⟩
  · rintro ⟨hperm, hsorted⟩
    rw [← sort_congr hperm, sort_of_pairwise hsorted]

end Ranges

variable {as : Artifacts}

namespace Reference

variable {r native : Reference} {bytes : ByteArray}

/-- The offsets of a reference do not show the order in which its ranges were given. -/
theorem nativeRanges_of_perm {ranges found : Ranges} (h : ranges.Perm r.ranges)
    (hfound : r.nativeRanges as = .ok found) :
    ({ r with ranges } : Reference).nativeRanges as = .ok found := by
  obtain ⟨a, native, ha, hall, rfl⟩ := nativeRanges_eq_ok_iff.mp hfound
  obtain ⟨moved, hmoved, hperm⟩ := List.perm_comp_forall₂ h hall
  exact nativeRanges_eq_ok_iff.mpr ⟨a, moved, ha, hmoved, (Ranges.sort_congr hperm).symm⟩

/-- The ranges of a reference can be given in any order. -/
theorem bytes_of_perm {ranges : Ranges} (h : ranges.Perm r.ranges) (hbytes : r.bytes as = .ok bytes) :
    ({ r with ranges } : Reference).bytes as = .ok bytes := by
  obtain ⟨a, ha, hread⟩ := exists_ok_of_bind hbytes
  obtain ⟨found, hfound, hread⟩ := exists_ok_of_bind hread
  exact bind_eq_ok_iff.mpr ⟨a, ha, bind_eq_ok_iff.mpr ⟨found, nativeRanges_of_perm h hfound, hread⟩⟩

/-- A reference that can be read has an artifact and ranges with offsets that lie within it. It reads the
slices at these offsets in ascending order. -/
theorem bytes_eq_ok_iff_sorted : r.bytes as = .ok bytes ↔
    ∃ a native, ∃ sorted : Ranges, as.find? r.artifact = some a ∧
      List.Forall₂ (fun range n => r.space.toNative a range = .ok n) r.ranges native ∧
      (∀ n ∈ native, n.offset.toNat + n.length.toNat ≤ a.size) ∧
      sorted.Perm native ∧ sorted.Sorted ∧ bytes = sorted.gather a.content := by
  constructor
  · intro h
    obtain ⟨a, ha, -⟩ := exists_ok_of_bind h
    have ha := Artifacts.get_eq_ok_iff.mp ha
    obtain ⟨native, hall, hfits, rfl⟩ := (bytes_iff_gather ha).mp h
    obtain ⟨hperm, hsorted⟩ := Ranges.sort_eq_iff.mp (rfl : Ranges.sort native = _)
    exact ⟨a, native, _, ha, hall, hfits, hperm, hsorted, rfl⟩
  · rintro ⟨a, native, sorted, ha, hall, hfits, hperm, hsorted, rfl⟩
    have hsort : Ranges.sort native = sorted := Ranges.sort_eq_iff.mpr ⟨hperm, hsorted⟩
    exact (bytes_iff_gather ha).mpr ⟨native, hall, hfits, by rw [hsort]⟩

/-- A reference that was resolved points at offsets, in ascending order, so that resolving it again
changes nothing and it reads the same, or fails to for the same reason. -/
theorem of_resolve (h : r.resolve as = .ok native) :
    native.mapper = none ∧ native.resolve as = .ok native ∧ native.bytes as = r.bytes as := by
  obtain ⟨found, hfound, hpure⟩ := exists_ok_of_bind h
  cases hpure
  have hagain : Reference.nativeRanges ⟨⟨r.artifact, none⟩, found⟩ as = .ok found := by
    obtain ⟨a, native, ha, -, rfl⟩ := nativeRanges_eq_ok_iff.mp hfound
    have hsame : List.Forall₂ (fun range n => AddressSpace.toNative ⟨r.artifact, none⟩ a range = .ok n)
        (Ranges.sort native) (Ranges.sort native) := List.forall₂_same.mpr fun _ _ => rfl
    exact nativeRanges_eq_ok_iff.mpr ⟨a, _, ha, hsame, (Ranges.sort_sort native).symm⟩
  refine ⟨rfl, ?_, ?_⟩
  · rw [resolve, hagain]
    rfl
  · rw [Reference.bytes, Reference.bytes, hagain, hfound]

end Reference

namespace References

/-- Resolving goes reference by reference, and so does reading. -/
theorem of_forall₂_resolve {rs native : References}
    (h : List.Forall₂ (fun r n : Reference => r.resolve as = .ok n) rs native) :
    (∀ n ∈ native, n.mapper = none) ∧ List.Forall₂ (fun r n => r.resolve as = .ok n) native native ∧
      ∀ out, native.foldlM (fun out r => return out ++ (← r.bytes as)) out =
        rs.foldlM (fun out r => return out ++ (← r.bytes as)) out := by
  induction h with
  | nil => exact ⟨List.forall_mem_nil _, .nil, fun _ => rfl⟩
  | cons hr _ ih =>
    obtain ⟨hmapper, hagain, hbytes⟩ := Reference.of_resolve hr
    obtain ⟨hmappers, hagains, hrest⟩ := ih
    refine ⟨List.forall_mem_cons.mpr ⟨hmapper, hmappers⟩, .cons hagain hagains, fun out => ?_⟩
    simp only [List.foldlM_cons, hbytes, hrest]

/-- References that were resolved have no mapper, stay as they are when they are resolved again, and read the
same as before, or fail to for the same reason. -/
theorem of_resolve {rs native : References} (h : rs.resolve as = .ok native) :
    (∀ r ∈ native, r.mapper = none) ∧ native.resolve as = .ok native ∧ native.bytes as = rs.bytes as := by
  obtain ⟨hmappers, hagain, hread⟩ := of_forall₂_resolve (mapM_eq_ok_iff.mp h)
  exact ⟨hmappers, mapM_eq_ok_iff.mpr hagain, hread ByteArray.empty⟩

/-- Reading is canonical. A reference reads the same with its ranges in any other order. It can be read if,
and only if, its artifact is there and its ranges have offsets there and lie within it; then it reads the
slices at these offsets, in ascending order of offsets and lengths. References that were resolved have no
mapper, stay as they are when they are resolved again, and read what the references read before, or fail for
the same reason. -/
theorem bytes_canonical (as : Artifacts) :
    (∀ (r : Reference) (ranges : Ranges) (bytes : ByteArray), ranges.Perm r.ranges →
      (({ r with ranges } : Reference).bytes as = .ok bytes ↔ r.bytes as = .ok bytes)) ∧
    (∀ (r : Reference) (bytes : ByteArray), r.bytes as = .ok bytes ↔
      ∃ a native, ∃ sorted : Ranges, as.find? r.artifact = some a ∧
        List.Forall₂ (fun range n => r.space.toNative a range = .ok n) r.ranges native ∧
        (∀ n ∈ native, n.offset.toNat + n.length.toNat ≤ a.size) ∧
        sorted.Perm native ∧ sorted.Sorted ∧ bytes = sorted.gather a.content) ∧
    ∀ rs native : References, rs.resolve as = .ok native →
      (∀ r ∈ native, r.mapper = none) ∧ native.resolve as = .ok native ∧
        native.bytes as = rs.bytes as := by
  refine ⟨fun r ranges bytes hperm => ⟨?_, Reference.bytes_of_perm hperm⟩,
    fun r bytes => Reference.bytes_eq_ok_iff_sorted, fun rs native => of_resolve⟩
  exact Reference.bytes_of_perm (r := { r with ranges }) hperm.symm

/-- Five bytes. -/
def fiveBytes : Artifacts := { image := some ⟨⟨#[0xA0, 0xA1, 0xA2, 0xA3, 0xA4]⟩, by decide⟩ }

/-- Addresses that do not ascend as their offsets do, at ranges that overlap. -/
def wrappedReference : Reference := ⟨⟨.biosImage, some .amdFlash⟩, [⟨0x2, 0x2⟩, ⟨0xFF000000, 0x3⟩]⟩

theorem bytes_canonical_wrappedReference :
    wrappedReference.ranges.reverse.Perm wrappedReference.ranges ∧
      ({ wrappedReference with ranges := wrappedReference.ranges.reverse } : Reference).bytes fiveBytes =
        .ok ⟨#[0xA0, 0xA1, 0xA2, 0xA2, 0xA3]⟩ ∧
      ∃ native, References.resolve [wrappedReference] fiveBytes = .ok native ∧
        native.resolve fiveBytes = .ok native ∧
        native.bytes fiveBytes = .ok ⟨#[0xA0, 0xA1, 0xA2, 0xA2, 0xA3]⟩ := by
  have hbytes : wrappedReference.bytes fiveBytes = .ok ⟨#[0xA0, 0xA1, 0xA2, 0xA2, 0xA3]⟩ :=
    Reference.bytes_eq_ok_iff_sorted.mpr ⟨_, [⟨0x2, 0x2⟩, ⟨0x0, 0x3⟩], [⟨0x0, 0x3⟩, ⟨0x2, 0x2⟩], rfl,
      .cons rfl (.cons rfl .nil), by decide, by decide, by simp [Ranges.Sorted], by decide +kernel⟩
  have hall : References.bytes [wrappedReference] fiveBytes = .ok ⟨#[0xA0, 0xA1, 0xA2, 0xA2, 0xA3]⟩ := by
    rw [References.bytes_singleton, hbytes]
  obtain ⟨native, hnative⟩ : ∃ native, References.resolve [wrappedReference] fiveBytes = .ok native :=
    ⟨_, by cbv⟩
  obtain ⟨hperm, -, hresolve⟩ := bytes_canonical fiveBytes
  obtain ⟨-, hagain, hsame⟩ := hresolve _ native hnative
  have hreverse := List.reverse_perm wrappedReference.ranges
  exact ⟨hreverse, (hperm _ _ _ hreverse).mpr hbytes, native, hnative, hagain, hsame.trans hall⟩

end References

end MeasuredBoot
