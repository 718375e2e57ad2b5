import Mathlib.Data.List.Permutation
import MeasuredBoot.Proofs.Range.Cutting
import MeasuredBoot.Proofs.Range.Merging
import MeasuredBoot.Reference

/-!
# The offsets of references, space by space

A list of references is seen here through the ranges that it has in each space
(`References.rangesIn`). Merging and cutting act on each space by itself:

* `References.rangesIn_sortAndMerge`, `References.sortAndMerge_eq_iff`: a merged list is given by the
  merged ranges in each space;
* `References.rangesIn_exclude`: the ranges in a space are cut by the ranges there;
* `References.sortAndMerge_canonical`: merging gives the canonical form of what the references stand for;
* `References.exclude_difference`: cutting gives the difference;
* `References.exclude_self`: what is left of references that are cut by themselves.
-/

namespace MeasuredBoot

/-! ## The order of the spaces -/

/-- The place of a kind in the order of kinds. -/
def ArtifactKind.rank : ArtifactKind → Nat
  | .biosImage => 0
  | .registers => 1

/-- The place of a mapper in the order of mappers, which none comes before. -/
def AddressMapper.rank? : Option AddressMapper → Nat
  | none => 0
  | some .physMem => 1
  | some .amdFlash => 2

namespace AddressSpace

/-- Spaces are ordered by their kinds, and those of one kind by their mappers. -/
def Before (a b : AddressSpace) : Prop :=
  a.artifact.rank < b.artifact.rank ∨
    a.artifact = b.artifact ∧ AddressMapper.rank? a.mapper < AddressMapper.rank? b.mapper

instance (a b : AddressSpace) : Decidable (a.Before b) := inferInstanceAs (Decidable (_ ∨ _))

theorem Before.ne {a b : AddressSpace} (h : a.Before b) : a ≠ b := by
  rintro rfl
  rcases h with h | ⟨-, h⟩ <;> exact Nat.lt_irrefl _ h

theorem pairwise_all : all.Pairwise Before := by decide

end AddressSpace

namespace References

variable {A B : References} {space : AddressSpace}

/-! ## Ranges in a space -/

theorem rangesIn_cons (r : Reference) (A : References) (space : AddressSpace) :
    rangesIn (r :: A) space = if r.space = space then r.ranges ++ A.rangesIn space
      else A.rangesIn space := by
  rw [rangesIn, List.filter_cons]
  split <;> simp_all [rangesIn]

theorem mem_rangesIn {range : Range} :
    range ∈ A.rangesIn space ↔ ∃ r ∈ A, r.space = space ∧ range ∈ r.ranges := by
  simp [rangesIn, and_assoc]

/-- The offsets in a space are those of the ranges there. -/
theorem covers_iff (A : References) (space : AddressSpace) (x : Nat) :
    A.Covers space x ↔ Ranges.Covers (A.rangesIn space) x := by
  simp only [Covers, Ranges.Covers, mem_rangesIn]
  constructor
  · rintro ⟨r, hr, hspace, range, hrange, hx⟩
    exact ⟨range, ⟨r, hr, hspace, hrange⟩, hx⟩
  · rintro ⟨range, ⟨r, hr, hspace, hrange⟩, hx⟩
    exact ⟨r, hr, hspace, range, hrange, hx⟩

theorem within?_eq_some_iff {ranges : Ranges} {r : Reference} :
    within? space ranges = some r ↔ ranges ≠ [] ∧ r = ⟨space, ranges⟩ := by
  rw [within?]
  cases ranges <;> simp [eq_comm]

/-- Of references to different spaces, those to one space. -/
theorem rangesIn_filterMap {spaces : List AddressSpace} (f : AddressSpace → Ranges)
    (hnodup : spaces.Nodup) (space : AddressSpace) :
    rangesIn (spaces.filterMap fun s => within? s (f s)) space =
      if space ∈ spaces then f space else [] := by
  induction spaces with
  | nil => rfl
  | cons s rest ih =>
    obtain ⟨hs, hrest⟩ := List.nodup_cons.mp hnodup
    rw [List.filterMap_cons]
    cases hf : f s with
    | nil =>
      rw [within?, List.isEmpty_nil, if_pos rfl]
      dsimp only
      rw [ih hrest]
      by_cases hspace : space = s
      · subst hspace
        rw [if_neg hs, if_pos List.mem_cons_self, hf]
      · simp [hspace]
    | cons range ranges =>
      rw [within?, List.isEmpty_cons, if_neg Bool.false_ne_true]
      dsimp only
      rw [rangesIn_cons, ih hrest]
      show (if s = space then (range :: ranges) ++ _ else _) = _
      by_cases hspace : space = s
      · subst hspace
        rw [if_neg hs, if_pos List.mem_cons_self, hf, if_pos rfl, List.append_nil]
      · rw [if_neg (fun h => hspace h.symm)]
        simp [hspace]

/-! ## Merging -/

/-- A merged list has the merged ranges in each space. -/
theorem rangesIn_sortAndMerge (A : References) (space : AddressSpace) :
    A.sortAndMerge.rangesIn space = Ranges.sortAndMerge (A.rangesIn space) := by
  have hnodup : AddressSpace.all.Nodup := AddressSpace.pairwise_all.imp AddressSpace.Before.ne
  rw [sortAndMerge, rangesIn_filterMap (fun s => Ranges.sortAndMerge (A.rangesIn s)) hnodup,
    if_pos space.mem_all]

theorem sortAndMerge_eq_iff : A.sortAndMerge = B.sortAndMerge ↔
    ∀ space, Ranges.sortAndMerge (A.rangesIn space) = Ranges.sortAndMerge (B.rangesIn space) := by
  constructor
  · intro h space
    rw [← rangesIn_sortAndMerge, ← rangesIn_sortAndMerge, h]
  · intro h
    simp only [sortAndMerge, h]

theorem of_mem_sortAndMerge {r : Reference} (h : r ∈ A.sortAndMerge) :
    r.ranges ≠ [] ∧ r.ranges = Ranges.sortAndMerge (A.rangesIn r.space) := by
  obtain ⟨space, -, hsome⟩ := List.mem_filterMap.mp h
  obtain ⟨hne, rfl⟩ := within?_eq_some_iff.mp hsome
  exact ⟨hne, rfl⟩

theorem covers_sortAndMerge (A : References) (space : AddressSpace) (x : Nat) :
    A.sortAndMerge.Covers space x ↔ A.Covers space x := by
  rw [covers_iff, covers_iff, rangesIn_sortAndMerge, Ranges.covers_sortAndMerge]

/-- One reference for each space, in ascending order of the spaces, none without ranges, and the ranges
of each with gaps between them. -/
structure Canonical (A : References) : Prop where
  ascending : A.Pairwise fun r s => r.space.Before s.space
  nonempty : ∀ r ∈ A, r.ranges ≠ []
  separated : ∀ r ∈ A, Ranges.Separated r.ranges

theorem canonical_sortAndMerge (A : References) : A.sortAndMerge.Canonical where
  ascending := by
    refine List.pairwise_filterMap.mpr (AddressSpace.pairwise_all.imp fun {s t} hbefore r hr q hq => ?_)
    obtain ⟨-, rfl⟩ := within?_eq_some_iff.mp hr
    obtain ⟨-, rfl⟩ := within?_eq_some_iff.mp hq
    exact hbefore
  nonempty r hr := (of_mem_sortAndMerge hr).1
  separated r hr := by
    rw [(of_mem_sortAndMerge hr).2]
    exact Ranges.separated_sortAndMerge _

/-- The same references in another order, each with its ranges in another order. -/
def Rearranged (A B : References) : Prop :=
  ∃ C : References, A.Perm C ∧
    List.Forall₂ (fun r s : Reference => r.space = s.space ∧ r.ranges.Perm s.ranges) C B

theorem Rearranged.perm_rangesIn (h : A.Rearranged B) (space : AddressSpace) :
    (A.rangesIn space).Perm (B.rangesIn space) := by
  obtain ⟨C, hperm, hsame⟩ := h
  have hfirst : (A.rangesIn space).Perm (C.rangesIn space) := (hperm.filter _).flatMap_right _
  refine hfirst.trans ?_
  clear hperm hfirst
  induction hsame with
  | nil => exact List.Perm.refl _
  | @cons r s C B hrs _ ih =>
    obtain ⟨hspace, hranges⟩ := hrs
    rw [rangesIn_cons, rangesIn_cons, hspace]
    split
    · exact hranges.append ih
    · exact ih

/-- All ranges are proper. -/
def Proper (A : References) : Prop := ∀ r ∈ A, ∀ range ∈ r.ranges, range.Proper

theorem Proper.rangesIn (h : A.Proper) (space : AddressSpace) :
    ∀ range ∈ A.rangesIn space, range.Proper := by
  intro range hrange
  obtain ⟨r, hr, -, hmem⟩ := mem_rangesIn.mp hrange
  exact h r hr range hmem

/-- Merging gives a canonical form: one reference for each space, with gaps between its ranges, for the
same offsets as before. It gives the same form for a list that was merged already and for every other
arrangement of the list. Of proper ranges, the form is given by the offsets alone, the number of which
is the total length. -/
theorem sortAndMerge_canonical (A : References) :
    A.sortAndMerge.Canonical ∧
    (∀ space x, A.sortAndMerge.Covers space x ↔ A.Covers space x) ∧
    A.sortAndMerge.sortAndMerge = A.sortAndMerge ∧
    (∀ B : References, A.Rearranged B → B.sortAndMerge = A.sortAndMerge) ∧
    (A.Proper →
      (∀ B : References, B.Proper →
        (A.sortAndMerge = B.sortAndMerge ↔ ∀ space x, A.Covers space x ↔ B.Covers space x)) ∧
      ∀ r ∈ A.sortAndMerge,
        (Ranges.totalLength r.ranges).toNat = {x | A.Covers r.space x}.ncard) := by
  refine ⟨canonical_sortAndMerge A, covers_sortAndMerge A, ?_, fun B hB => ?_, fun hA => ⟨?_, ?_⟩⟩
  · refine sortAndMerge_eq_iff.mpr fun space => ?_
    rw [rangesIn_sortAndMerge]
    exact Ranges.sortAndMerge_of_separated (Ranges.separated_sortAndMerge _)
  · exact sortAndMerge_eq_iff.mpr fun space =>
      Ranges.sortAndMerge_congr (hB.perm_rangesIn space).symm
  · intro B hB
    constructor
    · intro h space x
      rw [← covers_sortAndMerge, h, covers_sortAndMerge]
    · intro h
      refine sortAndMerge_eq_iff.mpr fun space => ?_
      refine (Ranges.separated_sortAndMerge _).eq_of_covers (Ranges.separated_sortAndMerge _)
        (Ranges.proper_sortAndMerge (hA.rangesIn space))
        (Ranges.proper_sortAndMerge (hB.rangesIn space)) fun x => ?_
      rw [Ranges.covers_sortAndMerge, Ranges.covers_sortAndMerge, ← covers_iff, ← covers_iff, h]
  · intro r hr
    have hcovers : {x | A.Covers r.space x} = {x | Ranges.Covers r.ranges x} := by
      ext x
      show A.Covers r.space x ↔ Ranges.Covers r.ranges x
      rw [covers_iff, (of_mem_sortAndMerge hr).2, Ranges.covers_sortAndMerge]
    rw [hcovers]
    refine Ranges.Separated.toNat_totalLength ((canonical_sortAndMerge A).separated r hr) ?_
    rw [(of_mem_sortAndMerge hr).2]
    exact Ranges.proper_sortAndMerge (hA.rangesIn r.space)

/-- A list with ranges that touch and that overlap, in descending order. -/
def touching : References :=
  [⟨⟨.biosImage, some .physMem⟩, [⟨0x30, 0x10⟩]⟩, ⟨⟨.biosImage, none⟩, [⟨0x28, 0x18⟩]⟩,
    ⟨⟨.biosImage, none⟩, [⟨0x20, 0x10⟩, ⟨0x10, 0x10⟩]⟩]

theorem sortAndMerge_canonical_touching :
    touching.Proper ∧ Proper touching.reverse ∧
      touching.sortAndMerge =
        [⟨⟨.biosImage, none⟩, [⟨0x10, 0x30⟩]⟩, ⟨⟨.biosImage, some .physMem⟩, [⟨0x30, 0x10⟩]⟩] ∧
      (∀ space x, touching.Covers space x ↔ Covers touching.reverse space x) ∧
      {x | touching.Covers ⟨.biosImage, none⟩ x}.ncard = 0x30 := by
  have hproper : touching.Proper := by
    unfold Proper Range.Proper
    decide +kernel
  have hreverse : Proper touching.reverse := fun r hr => hproper r (List.mem_reverse.mp hr)
  have hmerged : touching.sortAndMerge =
      [⟨⟨.biosImage, none⟩, [⟨0x10, 0x30⟩]⟩, ⟨⟨.biosImage, some .physMem⟩, [⟨0x30, 0x10⟩]⟩] := by cbv
  have hrearranged : touching.Rearranged touching.reverse :=
    ⟨touching.reverse, (List.reverse_perm touching).symm,
      List.forall₂_same.mpr fun r _ => ⟨rfl, List.Perm.refl _⟩⟩
  obtain ⟨-, -, -, harranged, hgiven⟩ := sortAndMerge_canonical touching
  obtain ⟨hoffsets, hlength⟩ := hgiven hproper
  refine ⟨hproper, hreverse, hmerged,
    (hoffsets touching.reverse hreverse).mp (harranged touching.reverse hrearranged).symm, ?_⟩
  have hmem : (⟨⟨.biosImage, none⟩, [⟨0x10, 0x30⟩]⟩ : Reference) ∈ touching.sortAndMerge := by
    rw [hmerged]
    exact List.mem_cons_self
  exact (hlength _ hmem).symm

/-! ## Cutting -/

theorem exclude_eq_filter (A B : References) :
    A.exclude B = (A.map fun r => (⟨r.space, r.ranges.flatMap (·.exclude (B.rangesIn r.space))⟩ :
      Reference)).filter fun r => !r.ranges.isEmpty := by
  induction A with
  | nil => rfl
  | cons r rest ih =>
    rw [exclude] at ih ⊢
    rw [List.filterMap_cons, List.map_cons, List.filter_cons, ih, within?, Ranges.exclude_eq_flatMap]
    cases r.ranges.flatMap (·.exclude (B.rangesIn r.space)) <;> rfl

theorem mem_exclude {r : Reference} : r ∈ A.exclude B ↔ r.ranges ≠ [] ∧
    ∃ q ∈ A, q.space = r.space ∧ r.ranges = Ranges.exclude q.ranges (B.rangesIn r.space) := by
  rw [exclude, List.mem_filterMap]
  simp only [within?_eq_some_iff]
  constructor
  · rintro ⟨q, hq, hne, rfl⟩
    exact ⟨hne, q, hq, rfl, rfl⟩
  · rintro ⟨hne, q, hq, hspace, hranges⟩
    rw [← hspace] at hranges
    refine ⟨q, hq, hranges ▸ hne, ?_⟩
    cases r
    subst hspace hranges
    rfl

/-- Cutting acts on each space by itself. -/
theorem rangesIn_exclude (A B : References) (space : AddressSpace) :
    (A.exclude B).rangesIn space = Ranges.exclude (A.rangesIn space) (B.rangesIn space) := by
  simp only [Ranges.exclude_eq_flatMap]
  induction A with
  | nil => rfl
  | cons r rest ih =>
    rw [exclude] at ih ⊢
    rw [List.filterMap_cons, rangesIn_cons, Ranges.exclude_eq_flatMap]
    cases hleft : r.ranges.flatMap (·.exclude (B.rangesIn r.space)) with
    | nil =>
      rw [within?, List.isEmpty_nil, if_pos rfl]
      dsimp only
      rw [ih]
      split
      · rename_i hspace
        rw [List.flatMap_append, ← hspace, hleft, List.nil_append]
      · rfl
    | cons range ranges =>
      rw [within?, List.isEmpty_cons, if_neg Bool.false_ne_true]
      dsimp only
      rw [rangesIn_cons, ih]
      show (if r.space = space then (range :: ranges) ++ _ else _) = _
      split
      · rename_i hspace
        rw [List.flatMap_append, ← hspace, hleft]
      · rfl

/-- Cutting gives the difference, space by space. No reference without ranges is left and no range
without bytes; what is left of each range comes in ascending order where the range was, and what is left
of each reference where the reference was. -/
theorem exclude_difference (A B : References) :
    (∀ space x, (A.exclude B).Covers space x ↔ A.Covers space x ∧ ¬B.Covers space x) ∧
    (∀ r ∈ A.exclude B, r.ranges ≠ [] ∧ ∀ range ∈ r.ranges, 0 < range.length.toNat) ∧
    ∃ left : AddressSpace → Range → Ranges,
      A.exclude B = (A.map fun r => (⟨r.space, r.ranges.flatMap (left r.space)⟩ : Reference)).filter
        (fun r => !r.ranges.isEmpty) ∧
      ∀ space range, Ranges.Ordered (left space range) ∧
        ∀ x, Ranges.Covers (left space range) x ↔ range.Covers x ∧ ¬B.Covers space x := by
  refine ⟨fun space x => ?_, fun r hr => ?_, fun space range => range.exclude (B.rangesIn space),
    exclude_eq_filter A B, fun space range => ⟨Range.ordered_exclude range _, fun x => ?_⟩⟩
  · rw [covers_iff B]
    constructor
    · rintro ⟨r, hr, rfl, hx⟩
      obtain ⟨-, q, hq, hspace, hranges⟩ := mem_exclude.mp hr
      rw [hranges, Ranges.covers_exclude] at hx
      exact ⟨⟨q, hq, hspace, hx.1⟩, hx.2⟩
    · rintro ⟨⟨q, hq, rfl, hx⟩, hcut⟩
      have hleft : Ranges.Covers (Ranges.exclude q.ranges (B.rangesIn q.space)) x :=
        (Ranges.covers_exclude _ _ x).mpr ⟨hx, hcut⟩
      refine ⟨⟨q.space, Ranges.exclude q.ranges (B.rangesIn q.space)⟩, ?_, rfl, hleft⟩
      refine mem_exclude.mpr ⟨?_, q, hq, rfl, rfl⟩
      intro hnil
      rw [show Ranges.exclude q.ranges (B.rangesIn q.space) = [] from hnil] at hleft
      exact (Ranges.covers_nil x).mp hleft
  · obtain ⟨hne, q, -, -, hranges⟩ := mem_exclude.mp hr
    refine ⟨hne, fun range hrange => ?_⟩
    rw [hranges] at hrange
    exact Ranges.length_pos_of_mem_exclude hrange
  · rw [Range.covers_exclude, ← covers_iff]

/-- The references to ranges without offsets, although with bytes, and with no other ranges. -/
def startingLast (A : References) : References :=
  A.filterMap fun r => within? r.space (r.ranges.filter Range.startsLast)

theorem startingLast_eq_nil_iff :
    A.startingLast = [] ↔ ∀ r ∈ A, ∀ range ∈ r.ranges, range.startsLast = false := by
  simp only [startingLast, List.filterMap_eq_nil_iff, within?, ite_eq_left_iff, List.isEmpty_iff, reduceCtorEq,
    imp_false, not_not, List.filter_eq_nil_iff, Bool.not_eq_true]

/-- Cuts that stand for all offsets of some references leave those without offsets. -/
theorem exclude_of_covered (h : ∀ space x, A.Covers space x → B.Covers space x) :
    A.exclude B = A.startingLast := by
  refine List.filterMap_congr fun r hr => ?_
  rw [Ranges.exclude_of_covered fun x hx => ?_]
  exact (covers_iff B r.space x).mp (h r.space x ⟨r, hr, rfl, hx⟩)

/-- References cut by themselves stand for no offsets. What is left of them are the ranges with bytes that start
at the last 64-bit offset, and nothing exactly if there is no such range. -/
theorem exclude_self (A : References) :
    (∀ space x, ¬(A.exclude A).Covers space x) ∧
    A.exclude A = A.startingLast ∧
    (A.exclude A = [] ↔ ∀ r ∈ A, ∀ range ∈ r.ranges,
      range.length.toNat = 0 ∨ range.offset.toNat < lastOffset) := by
  have hself := exclude_of_covered (A := A) fun _ _ hx => hx
  refine ⟨fun space x hx => ?_, hself, ?_⟩
  · rw [covers_iff, rangesIn_exclude, Ranges.covers_exclude] at hx
    exact hx.2 hx.1
  · rw [hself, startingLast_eq_nil_iff]
    refine forall₂_congr fun r _ => forall₂_congr fun range _ => ?_
    have hlast := range.offset_le_lastOffset
    rw [← Bool.not_eq_true, Range.startsLast_iff, ← Range.isEmpty_iff, not_and_or, Bool.not_eq_false]
    exact or_congr_right (by omega)

example : exclude [⟨⟨.biosImage, none⟩, [⟨0x10, 0x08⟩, ⟨0xFFFFFFFFFFFFFFFF, 0x01⟩]⟩]
    [⟨⟨.biosImage, none⟩, [⟨0x10, 0x08⟩, ⟨0xFFFFFFFFFFFFFFFF, 0x01⟩]⟩] =
      [⟨⟨.biosImage, none⟩, [⟨0xFFFFFFFFFFFFFFFF, 0x01⟩]⟩] := by cbv

end References

end MeasuredBoot
