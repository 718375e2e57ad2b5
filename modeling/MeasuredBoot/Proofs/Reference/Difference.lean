import MeasuredBoot.Proofs.AddressMapper.Cutting
import MeasuredBoot.Proofs.Reference.Native

/-!
# Cutting and the offsets of the artifact

References are cut in their spaces, and denote offsets of their artifacts (`References.CoversNative`).

* `References.Native.exclude`: what is left of references that have offsets has offsets;
* `References.exclude_native`: cutting references to one space takes the offsets of the cuts. Through the
  flash window it does so unless addresses a number of windows apart stand for one offset
  (`References.NoneAlias`), provided that a range past the last word overlaps some cut exactly if some cut is
  past the last word as well (`References.TopCut`).
-/

namespace MeasuredBoot

/-! ## The ranges of one space -/

namespace AddressSpace

variable {space : AddressSpace} {rs cuts : Ranges} {size : Nat}

/-- Offsets that no cut has are left. -/
theorem exists_landsOn_exclude (htop : space.mapper ≠ none → rs.TopCut cuts) {y : Nat}
    (hrs : ∃ range ∈ rs, space.LandsOn size range y) (hcuts : ¬∃ range ∈ cuts, space.LandsOn size range y) :
    ∃ range ∈ rs.exclude cuts, space.LandsOn size range y := by
  cases hmapper : space.mapper with
  | none =>
    simp only [LandsOn, hmapper] at hrs hcuts ⊢
    exact (Ranges.covers_exclude rs cuts y).mpr ⟨hrs, hcuts⟩
  | some mapper =>
    have hspans := Ranges.spans_exclude (htop (by rw [hmapper]; exact Option.some_ne_none mapper))
    rw [exists_landsOn_iff hmapper] at hrs hcuts ⊢
    obtain ⟨x, hx, hy⟩ := hrs
    exact ⟨x, (hspans x).mpr ⟨hx, fun hcut => hcuts ⟨x, hcut, hy⟩⟩, hy⟩

/-- No offset of a cut is left, unless addresses in different flash windows stand for it. -/
theorem exists_landsOn_exclude_apart_iff (htop : space.mapper ≠ none → rs.TopCut cuts)
    (hmaps : ∀ range ∈ rs, space.Maps size range) :
    (∀ y, (∃ range ∈ rs.exclude cuts, space.LandsOn size range y) →
      ¬∃ range ∈ cuts, space.LandsOn size range y) ↔ (space.mapper = some .amdFlash → rs.NoneAlias cuts) := by
  cases hmapper : space.mapper with
  | none =>
    simp only [LandsOn, hmapper, reduceCtorEq, false_implies, iff_true]
    exact fun y hy => ((Ranges.covers_exclude rs cuts y).mp hy).2
  | some mapper =>
    simp only [Maps, hmapper] at hmaps
    simp only [exists_landsOn_iff hmapper, Option.some.injEq]
    rw [← Ranges.noneAlias_iff (htop (by rw [hmapper]; exact Option.some_ne_none mapper)) hmaps]
    constructor
    · exact fun h x y offset hx hy hxoffset hyoffset => h offset ⟨x, hx, hxoffset⟩ ⟨y, hy, hyoffset⟩
    · rintro h offset ⟨x, hx, hxoffset⟩ ⟨y, hy, hyoffset⟩
      exact h x y offset hx hy hxoffset hyoffset

end AddressSpace

/-! ## References -/

namespace References

open AddressMapper (flashWindow)

variable {A B : References} {as : Artifacts} {space : AddressSpace} {kind : ArtifactKind}

/-- What is left of references that have offsets has offsets. -/
theorem Native.exclude (h : A.Native as) (B : References) : (A.exclude B).Native as := by
  intro r hr
  obtain ⟨-, q, hq, hspace, hranges⟩ := mem_exclude.mp hr
  obtain ⟨a, ha, hmaps⟩ := Reference.exists_nativeRanges_iff.mp (h q hq)
  refine Reference.exists_nativeRanges_iff.mpr ⟨a, ?_, ?_⟩
  · rwa [show r.artifact = q.artifact from congrArg AddressSpace.artifact hspace.symm]
  · rw [hspace] at hmaps
    rw [hranges]
    revert hmaps
    simp only [AddressSpace.Maps]
    cases r.space.mapper with
    | none => exact fun _ _ _ => trivial
    | some mapper => exact fun hmaps range hrange => Ranges.resolves_of_mem_exclude hmaps hrange

/-- Of the ranges of an artifact into the flash window, one of `A` past the last word overlaps some range of
`B` exactly if some range of `B` is past the last word as well. -/
def TopCut (A B : References) : Prop :=
  ∀ kind, Ranges.TopCut (A.rangesIn ⟨kind, some .amdFlash⟩) (B.rangesIn ⟨kind, some .amdFlash⟩)

/-- No address in the flash window of an artifact that `A` has and `B` has not lies a number of windows from
one that `B` has. -/
def NoneAlias (A B : References) : Prop :=
  ∀ kind, Ranges.NoneAlias (A.rangesIn ⟨kind, some .amdFlash⟩) (B.rangesIn ⟨kind, some .amdFlash⟩)

theorem Native.topCut (h : A.Native as) (htop : A.TopCut B) (hmapper : space.mapper ≠ none) :
    Ranges.TopCut (A.rangesIn space) (B.rangesIn space) := by
  obtain ⟨kind, _ | _ | _⟩ := space
  · exact absurd rfl hmapper
  · exact fun r hr hsaturates => absurd hsaturates (h.not_saturates hr)
  · exact htop kind

/-- All references are to one space. -/
def AllIn (A : References) (space : AddressSpace) : Prop := ∀ r ∈ A, r.space = space

theorem AllIn.rangesIn_of_ne {other : AddressSpace} (h : A.AllIn space) (hne : other ≠ space) :
    A.rangesIn other = [] := by
  refine List.eq_nil_iff_forall_not_mem.mpr fun range hrange => ?_
  obtain ⟨r, hr, rfl, -⟩ := mem_rangesIn.mp hrange
  exact hne (h r hr)

theorem AllIn.exclude (h : A.AllIn space) (B : References) : (A.exclude B).AllIn space := by
  intro r hr
  obtain ⟨-, q, hq, hspace, -⟩ := mem_exclude.mp hr
  rw [← hspace]
  exact h q hq

theorem AllIn.coversNative_iff {a : Artifact} (hA : A.AllIn space) (h : A.Native as)
    (ha : as.find? space.artifact = some a) (y : Nat) :
    A.CoversNative as space.artifact y ↔ ∃ range ∈ A.rangesIn space, space.LandsOn a.size range y := by
  rw [h.coversNative_iff ha]
  constructor
  · rintro ⟨other, -, range, hrange, hy⟩
    by_cases hother : other = space
    · subst hother
      exact ⟨range, hrange, hy⟩
    · rw [hA.rangesIn_of_ne hother] at hrange
      exact absurd hrange List.not_mem_nil
  · rintro ⟨range, hrange, hy⟩
    exact ⟨space, rfl, range, hrange, hy⟩

/-- No address aliases another one where no reference is into the flash window. -/
theorem AllIn.noneAlias_iff (hA : A.AllIn space) : A.NoneAlias B ↔
    (space.mapper = some .amdFlash → Ranges.NoneAlias (A.rangesIn space) (B.rangesIn space)) := by
  constructor
  · obtain ⟨kind, mapper⟩ := space
    rintro h rfl
    exact h kind
  · rintro h kind
    by_cases hspace : (⟨kind, some .amdFlash⟩ : AddressSpace) = space
    · subst hspace
      exact h rfl
    · rw [hA.rangesIn_of_ne hspace]
      exact Ranges.noneAlias_nil _

/-- What is left of references to one space, all of which have offsets, has offsets. Provided that a range
into the flash window past the last word overlaps some cut exactly if some cut is past that word as well, every
offset that `A` denotes and `B` does not is still denoted; and no offset that `B` denotes is, if and only if no
address of `A` outside of `B` lies a number of flash windows from one of `B`. -/
theorem exclude_native (hA : A.AllIn space) (hB : B.AllIn space) (h : A.Native as) (hcuts : B.Native as) :
    (A.exclude B).Native as ∧
      (A.TopCut B →
        (∀ y, A.CoversNative as space.artifact y → ¬B.CoversNative as space.artifact y →
          (A.exclude B).CoversNative as space.artifact y) ∧
        ((∀ y, (A.exclude B).CoversNative as space.artifact y → ¬B.CoversNative as space.artifact y) ↔
          A.NoneAlias B)) := by
  refine ⟨h.exclude B, fun htop => ⟨fun y hy hcut => ?_, ?_⟩⟩
  · obtain ⟨a, ha⟩ := hy.exists_find?
    rw [hA.coversNative_iff h ha] at hy
    rw [hB.coversNative_iff hcuts ha] at hcut
    rw [(hA.exclude B).coversNative_iff (h.exclude B) ha, rangesIn_exclude]
    exact AddressSpace.exists_landsOn_exclude (h.topCut htop) hy hcut
  · rw [hA.noneAlias_iff]
    by_cases hnil : A.rangesIn space = []
    · refine iff_of_true (fun y hy => ?_) (fun _ => by rw [hnil]; exact Ranges.noneAlias_nil _)
      obtain ⟨a, ha⟩ := hy.exists_find?
      rw [(hA.exclude B).coversNative_iff (h.exclude B) ha, rangesIn_exclude, hnil] at hy
      obtain ⟨range, hrange, -⟩ := hy
      exact absurd hrange List.not_mem_nil
    · obtain ⟨a, ha, hmaps⟩ := h.maps hnil
      simp only [(hA.exclude B).coversNative_iff (h.exclude B) ha, hB.coversNative_iff hcuts ha,
        rangesIn_exclude]
      exact AddressSpace.exists_landsOn_exclude_apart_iff (h.topCut htop) hmaps

section MappedBy

variable {mapper : AddressMapper} {ranges : Ranges}

theorem allIn_mappedBy : (mappedBy mapper ranges).AllIn ⟨.biosImage, some mapper⟩ :=
  List.forall_mem_singleton.mpr rfl

end MappedBy

/-- The last bytes of the flash window, and some in its middle. -/
def upperReferences : References :=
  mappedBy .amdFlash [⟨0xFFFFFFFFFFFFFFF0, 0x10⟩, ⟨0xFFFFFFFFFF800000, 0x20⟩]

/-- The last word and some before it, and bytes in the middle of the window. -/
def upperCuts : References :=
  mappedBy .amdFlash [⟨0xFFFFFFFFFFFFFFF8, 0x08⟩, ⟨0xFFFFFFFFFF800008, 0x10⟩]

theorem exclude_native_upperReferences :
    upperReferences.AllIn ⟨.biosImage, some .amdFlash⟩ ∧ upperCuts.AllIn ⟨.biosImage, some .amdFlash⟩ ∧
      upperReferences.Native (blank flashWindow (by decide)) ∧
      upperCuts.Native (blank flashWindow (by decide)) ∧
      upperReferences.TopCut upperCuts ∧ upperReferences.NoneAlias upperCuts ∧
      (upperReferences.exclude upperCuts).Native (blank flashWindow (by decide)) ∧
      (∀ y, upperReferences.CoversNative (blank flashWindow (by decide)) .biosImage y →
        ¬upperCuts.CoversNative (blank flashWindow (by decide)) .biosImage y →
        (upperReferences.exclude upperCuts).CoversNative (blank flashWindow (by decide)) .biosImage y) ∧
      ∀ y, (upperReferences.exclude upperCuts).CoversNative (blank flashWindow (by decide)) .biosImage y →
        ¬upperCuts.CoversNative (blank flashWindow (by decide)) .biosImage y := by
  have hnative : upperReferences.Native (blank flashWindow (by decide)) :=
    native_mappedBy_iff.mpr (by decide)
  have hcuts : upperCuts.Native (blank flashWindow (by decide)) := native_mappedBy_iff.mpr (by decide)
  have htop : upperReferences.TopCut upperCuts := by
    intro kind
    rw [upperReferences, upperCuts, rangesIn_mappedBy, rangesIn_mappedBy]
    unfold Ranges.TopCut Range.Saturates
    cases kind <;> decide
  have halias : upperReferences.NoneAlias upperCuts := by
    intro kind
    rw [upperReferences, upperCuts, rangesIn_mappedBy, rangesIn_mappedBy]
    refine Ranges.InWindow.noneAlias (n := 0xFFFFFFFFFF) ?_ ?_ <;>
    · unfold Ranges.InWindow
      cases kind <;> decide
  obtain ⟨hleft, hoffsets⟩ := exclude_native allIn_mappedBy allIn_mappedBy hnative hcuts
  obtain ⟨hkept, hapart⟩ := hoffsets htop
  exact ⟨allIn_mappedBy, allIn_mappedBy, hnative, hcuts, htop, halias, hleft, hkept, hapart.mpr halias⟩

/-- Bytes at the start of the first flash window. -/
def firstWindow : References := mappedBy .amdFlash [⟨0x1000, 0x10⟩]

/-- The same bytes by addresses below 4 GiB. -/
def lastWindow : References := mappedBy .amdFlash [⟨0xFF001000, 0x10⟩]

/-- The last bytes of the window, by the last words. -/
def topWords : References := mappedBy .amdFlash [⟨0xFFFFFFFFFFFFFFF0, 0x10⟩]

/-- The first half of them. -/
def topCuts : References := mappedBy .amdFlash [⟨0xFFFFFFFFFFFFFFF0, 0x08⟩]

/-- Of an image as large as the flash window, what is left denotes an offset that a cut by other addresses
denotes; and what is left of the last words, after a cut below the last one, lacks the offset of the last. -/
theorem not_exclude_native :
    (firstWindow.Native (blank flashWindow (by decide)) ∧ lastWindow.Native (blank flashWindow (by decide)) ∧
      (firstWindow.exclude lastWindow).CoversNative (blank flashWindow (by decide)) .biosImage 0x1000 ∧
      lastWindow.CoversNative (blank flashWindow (by decide)) .biosImage 0x1000) ∧
    topWords.Native (blank flashWindow (by decide)) ∧ topCuts.Native (blank flashWindow (by decide)) ∧
      topWords.CoversNative (blank flashWindow (by decide)) .biosImage 0xFFFFFF ∧
      ¬topCuts.CoversNative (blank flashWindow (by decide)) .biosImage 0xFFFFFF ∧
      ¬(topWords.exclude topCuts).CoversNative (blank flashWindow (by decide)) .biosImage 0xFFFFFF := by
  have hfirst : firstWindow.exclude lastWindow = firstWindow := by cbv
  have htop : topWords.exclude topCuts = mappedBy .amdFlash [⟨0xFFFFFFFFFFFFFFF8, 0x07⟩] := by cbv
  have hnative {ranges : Ranges} (h : ∀ range ∈ ranges, AddressMapper.amdFlash.Resolves flashWindow range) :
      (mappedBy .amdFlash ranges).Native (blank flashWindow (by decide)) := native_mappedBy_iff.mpr h
  have hnot {first : UInt64} {length : UInt64}
      (h : AddressMapper.amdFlash.Resolves flashWindow ⟨first, length⟩)
      (hlow : 0xFFFFFFFFFFFFFFF0 ≤ first.toNat) (hhigh : first.toNat + length.toNat ≤ 0xFFFFFFFFFFFFFFFF) :
      ¬(mappedBy .amdFlash [⟨first, length⟩]).CoversNative (blank flashWindow (by decide)) .biosImage
        0xFFFFFF := by
    rw [coversNative_mappedBy_iff (hnative (List.forall_mem_singleton.mpr h))]
    rintro ⟨x, ⟨range, hrange, hxfirst, hxlast⟩, hx⟩
    obtain rfl := List.mem_singleton.mp hrange
    have hoffset := (AddressMapper.offset?_amdFlash_eq_some_iff.mp hx).1
    change 0 + x.toNat % 0x1000000 = 0xFFFFFF at hoffset
    dsimp only at hxfirst hxlast
    omega
  rw [hfirst, htop]
  refine ⟨⟨hnative (by decide), hnative (by decide), ?_, ?_⟩, hnative (by decide), hnative (by decide), ?_,
    hnot (by decide) (by decide) (by decide), hnot (by decide) (by decide) (by decide)⟩
  · exact (coversNative_mappedBy_iff (hnative (by decide)) _).mpr
      ⟨0x1000, ⟨⟨0x1000, 0x10⟩, by decide, by unfold Range.Spans; decide⟩, by decide⟩
  · exact (coversNative_mappedBy_iff (hnative (by decide)) _).mpr
      ⟨0xFF001000, ⟨⟨0xFF001000, 0x10⟩, by decide, by unfold Range.Spans; decide⟩, by decide⟩
  · exact (coversNative_mappedBy_iff (hnative (by decide)) _).mpr
      ⟨0xFFFFFFFFFFFFFFFF, ⟨⟨0xFFFFFFFFFFFFFFF0, 0x10⟩, by decide, by unfold Range.Spans; decide⟩, by decide⟩

end References

end MeasuredBoot
