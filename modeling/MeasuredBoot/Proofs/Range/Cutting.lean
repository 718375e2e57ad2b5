import MeasuredBoot.Proofs.Range.Covering

/-!
# Cutting ranges

A cut leaves at most two parts of a range (`Range.covers_subtract`); each further cut is applied to the
parts that are left. Whatever the cuts are, and in whatever order they come:

* `Range.covers_exclude`: what is left stands for the offsets of the range that no cut stands for;
* `Range.ordered_exclude`, `Range.length_pos_of_mem_exclude`: the parts ascend and have bytes;
* `Range.exclude_of_covered`: nothing is left of a range all offsets of which are cut, if it has any;
* `Ranges.exclude_eq_flatMap`: the parts of several ranges come in the order of the ranges.
-/

namespace MeasuredBoot

/-- The ranges ascend, and none of them reaches into a later one. -/
def Ranges.Ordered (rs : Ranges) : Prop :=
  rs.Pairwise fun a b => a.offset.toNat < b.offset.toNat ∧ a.stop ≤ b.offset.toNat

namespace Range

variable {r cut : Range}

theorem overlaps_iff {a b : Range} :
    a.overlaps b = true ↔ a.offset.toNat < b.stop ∧ b.offset.toNat < a.stop := by
  simp only [overlaps, Bool.and_eq_true, decide_eq_true_eq]

/-- What a cut leaves, of a range that it overlaps. -/
theorem subtract_of_overlaps (h : r.overlaps cut = true) :
    r.subtract cut =
      (if r.offset.toNat < cut.offset.toNat then [between r.offset.toNat cut.offset.toNat] else []) ++
        (if cut.stop < r.stop then [between cut.stop r.stop] else []) := by
  rw [subtract, if_pos h]
  simp only [UInt64.lt_iff_toNat_lt]

/-- A cut takes its offsets and no others. -/
theorem covers_subtract (r cut : Range) (x : Nat) :
    Ranges.Covers (r.subtract cut) x ↔ r.Covers x ∧ ¬cut.Covers x := by
  cases hoverlaps : r.overlaps cut with
  | false =>
    have hapart : ¬(r.offset.toNat < cut.stop ∧ cut.offset.toNat < r.stop) := by
      rw [← overlaps_iff, hoverlaps]
      exact Bool.false_ne_true
    rw [subtract, if_neg (by rw [hoverlaps]; exact Bool.false_ne_true)]
    simp only [Ranges.covers_cons, Ranges.covers_nil, or_false, Covers]
    omega
  | true =>
    obtain ⟨hlow, hhigh⟩ := overlaps_iff.mp hoverlaps
    have hcut := cut.offset_le_stop
    have hlast := r.stop_le_lastOffset
    rw [subtract_of_overlaps hoverlaps, Ranges.covers_append]
    have hbelow : Ranges.Covers (if r.offset.toNat < cut.offset.toNat
        then [between r.offset.toNat cut.offset.toNat] else []) x ↔
        r.offset.toNat ≤ x ∧ x < cut.offset.toNat := by
      split
      · have hwithin : cut.offset.toNat ≤ lastOffset := by omega
        simp [covers_between (show r.offset.toNat ≤ cut.offset.toNat by omega) hwithin]
      · simp
        omega
    have habove : Ranges.Covers (if cut.stop < r.stop then [between cut.stop r.stop] else []) x ↔
        cut.stop ≤ x ∧ x < r.stop := by
      split
      · simp [covers_between (show cut.stop ≤ r.stop by omega) hlast]
      · simp
        omega
    rw [hbelow, habove, Covers, Covers]
    omega

/-! ## The parts that are left -/

/-- Parts of a range: within it, ascending, each with an offset. -/
structure Parts (r : Range) (left : Ranges) : Prop where
  within : ∀ part ∈ left,
    r.offset.toNat ≤ part.offset.toNat ∧ part.offset.toNat < part.stop ∧ part.stop ≤ r.stop
  apart : left.Pairwise fun a b => a.stop ≤ b.offset.toNat

/-- What a cut leaves of a range that has an offset. -/
theorem parts_subtract (hr : r.offset.toNat < r.stop) (cut : Range) : r.Parts (r.subtract cut) := by
  cases hoverlaps : r.overlaps cut with
  | false =>
    rw [subtract, if_neg (by rw [hoverlaps]; exact Bool.false_ne_true)]
    exact ⟨List.forall_mem_singleton.mpr ⟨Nat.le_refl _, hr, Nat.le_refl _⟩, List.pairwise_singleton _ _⟩
  | true =>
    obtain ⟨hlow, hhigh⟩ := overlaps_iff.mp hoverlaps
    have hcut := cut.offset_le_stop
    have hlast := r.stop_le_lastOffset
    have hbelow : (between r.offset.toNat cut.offset.toNat).offset.toNat = r.offset.toNat :=
      toNat_offset_between r.offset_le_lastOffset
    have habove : (between cut.stop r.stop).offset.toNat = cut.stop :=
      toNat_offset_between cut.stop_le_lastOffset
    rw [subtract_of_overlaps hoverlaps]
    constructor
    · intro part hpart
      rcases List.mem_append.mp hpart with hmem | hmem
      · split at hmem
        · obtain rfl := List.mem_singleton.mp hmem
          rw [hbelow, stop_between (by omega) (by omega)]
          omega
        · exact absurd hmem List.not_mem_nil
      · split at hmem
        · obtain rfl := List.mem_singleton.mp hmem
          rw [habove, stop_between (by omega) hlast]
          omega
        · exact absurd hmem List.not_mem_nil
    · split
      · split
        · refine List.pairwise_pair.mpr ?_
          rw [stop_between (by omega) (by omega), habove]
          exact hcut
        · exact List.pairwise_singleton _ _
      · split
        · exact List.pairwise_singleton _ _
        · exact List.Pairwise.nil

/-- A further cut, of each part. -/
theorem Parts.subtract {left : Ranges} (h : r.Parts left) (cut : Range) :
    r.Parts (left.flatMap (·.subtract cut)) := by
  have hparts := fun part hpart => parts_subtract (h.within part hpart).2.1 cut
  constructor
  · intro small hsmall
    obtain ⟨part, hpart, hmem⟩ := List.mem_flatMap.mp hsmall
    have hlarge := h.within part hpart
    have hinner := (hparts part hpart).within small hmem
    omega
  · refine List.pairwise_flatMap.mpr ⟨fun part hpart => (hparts part hpart).apart, ?_⟩
    -- parts of an earlier part stop before those of a later one start
    refine h.apart.imp_of_mem fun {a b} ha hb hab small hsmall other hother => ?_
    have := (hparts a ha).within small hsmall
    have := (hparts b hb).within other hother
    omega

theorem Parts.foldl {left : Ranges} (h : r.Parts left) (cuts : Ranges) :
    r.Parts (cuts.foldl (fun left cut => left.flatMap (·.subtract cut)) left) := by
  induction cuts generalizing left with
  | nil => exact h
  | cons cut rest ih => exact ih (h.subtract cut)

/-! ## Several cuts -/

theorem covers_foldl_subtract (left cuts : Ranges) (x : Nat) :
    Ranges.Covers (cuts.foldl (fun left cut => left.flatMap (·.subtract cut)) left) x ↔
      Ranges.Covers left x ∧ ¬Ranges.Covers cuts x := by
  induction cuts generalizing left with
  | nil => simp
  | cons cut rest ih =>
    have hstep : Ranges.Covers (left.flatMap (·.subtract cut)) x ↔
        Ranges.Covers left x ∧ ¬cut.Covers x := by
      rw [Ranges.covers_flatMap, Ranges.Covers, ← exists_and_right]
      simp only [covers_subtract, and_assoc]
    rw [List.foldl_cons, ih, hstep, Ranges.covers_cons, not_or, and_assoc]

theorem isEmpty_iff {r : Range} : r.isEmpty = true ↔ r.length.toNat = 0 := by
  rw [isEmpty, beq_iff_eq, ← UInt64.toNat_inj]
  rfl

theorem not_covers_of_isEmpty (h : r.isEmpty = true) (x : Nat) : ¬r.Covers x := by
  have hlength := isEmpty_iff.mp h
  have hstop := r.stop_le_add
  rintro ⟨hle, hlt⟩
  omega

/-- What is left of a range after all cuts. -/
theorem covers_exclude (r : Range) (cuts : Ranges) (x : Nat) :
    Ranges.Covers (r.exclude cuts) x ↔ r.Covers x ∧ ¬Ranges.Covers cuts x := by
  rw [exclude, covers_foldl_subtract]
  split
  · rename_i hempty
    simp [not_covers_of_isEmpty hempty x]
  · simp

/-- A range at the last 64-bit word has no offset, so that no cut overlaps it. -/
theorem foldl_subtract_of_no_offset (hr : r.isEmpty = false) (hstop : r.stop ≤ r.offset.toNat)
    (cuts : Ranges) : cuts.foldl (fun left cut => left.flatMap (·.subtract cut)) [r] = [r] := by
  have hlength : r.length.toNat ≠ 0 := fun h => by
    rw [isEmpty_iff.mpr h] at hr
    exact Bool.noConfusion hr
  have hlast : lastOffset ≤ r.offset.toNat := by
    rw [Range.stop] at hstop
    omega
  induction cuts with
  | nil => rfl
  | cons cut rest ih =>
    have hapart : ¬r.overlaps cut = true := by
      have := cut.stop_le_lastOffset
      rw [overlaps_iff]
      omega
    rw [List.foldl_cons, List.flatMap_singleton, subtract, if_neg hapart, ih]

/-- What is left after all cuts: nothing of an empty range, the range itself where it has no offset, and
else parts of it. -/
theorem exclude_cases (r : Range) (cuts : Ranges) :
    r.exclude cuts = [] ∨ (r.exclude cuts = [r] ∧ r.isEmpty = false) ∨ r.Parts (r.exclude cuts) := by
  cases hempty : r.isEmpty with
  | true =>
    have hnone : cuts.foldl (fun left cut => left.flatMap (·.subtract cut)) [] = ([] : Ranges) := by
      induction cuts with
      | nil => rfl
      | cons cut rest ih => exact ih
    rw [exclude, if_pos hempty]
    exact .inl hnone
  | false =>
    rw [exclude, if_neg (by rw [hempty]; exact Bool.false_ne_true)]
    rcases Nat.lt_or_ge r.offset.toNat r.stop with hr | hstop
    · have hself : r.Parts [r] :=
        ⟨List.forall_mem_singleton.mpr ⟨Nat.le_refl _, hr, Nat.le_refl _⟩, List.pairwise_singleton _ _⟩
      exact .inr (.inr (hself.foldl cuts))
    · exact .inr (.inl ⟨foldl_subtract_of_no_offset hempty hstop cuts, rfl⟩)

theorem length_pos_of_mem_exclude {part : Range} {cuts : Ranges} (h : part ∈ r.exclude cuts) :
    0 < part.length.toNat := by
  rcases r.exclude_cases cuts with hnone | ⟨hself, hr⟩ | hparts
  · rw [hnone] at h
    exact absurd h List.not_mem_nil
  · rw [hself, List.mem_singleton] at h
    subst h
    refine Nat.pos_of_ne_zero fun hlength => ?_
    rw [isEmpty_iff.mpr hlength] at hr
    exact Bool.noConfusion hr
  · have := hparts.within part h
    have := part.stop_le_add
    omega

theorem ordered_exclude (r : Range) (cuts : Ranges) : Ranges.Ordered (r.exclude cuts) := by
  rcases r.exclude_cases cuts with hnone | ⟨hself, -⟩ | hparts
  · rw [hnone]
    exact List.Pairwise.nil
  · rw [hself]
    exact List.pairwise_singleton _ _
  · refine hparts.apart.imp_of_mem fun {a b} ha _ hab => ⟨?_, hab⟩
    have := hparts.within a ha
    omega

/-- The range has bytes and starts at the last 64-bit word, at which its stop is held as well. -/
def startsLast (r : Range) : Bool := !r.isEmpty && r.offset.toNat == lastOffset

theorem startsLast_iff : r.startsLast = true ↔ r.isEmpty = false ∧ r.offset.toNat = lastOffset := by
  rw [startsLast, Bool.and_eq_true, Bool.not_eq_true', beq_iff_eq]

/-- Cuts that stand for all offsets of a range leave nothing of it, except of one without offsets. -/
theorem exclude_of_covered {cuts : Ranges} (h : ∀ x, r.Covers x → Ranges.Covers cuts x) :
    r.exclude cuts = if r.startsLast then [r] else [] := by
  have hnone (x : Nat) : ¬Ranges.Covers (r.exclude cuts) x := by
    rw [covers_exclude]
    exact fun ⟨hx, hcuts⟩ => hcuts (h x hx)
  split
  · rename_i hlast
    obtain ⟨hfull, hoffset⟩ := startsLast_iff.mp hlast
    rw [exclude, if_neg (by rw [hfull]; exact Bool.false_ne_true)]
    exact foldl_subtract_of_no_offset hfull (by rw [hoffset]; exact r.stop_le_lastOffset) cuts
  · rename_i hlast
    rcases r.exclude_cases cuts with hnil | ⟨hself, hfull⟩ | hparts
    · exact hnil
    · -- the range would have an offset, which is not cut
      refine absurd (startsLast_iff.mpr ⟨hfull, ?_⟩) hlast
      have hlength : r.length.toNat ≠ 0 := fun hzero => by
        rw [isEmpty_iff.mpr hzero] at hfull
        exact Bool.noConfusion hfull
      have hoffset := hnone r.offset.toNat
      rw [hself, Ranges.covers_cons, Covers, stop] at hoffset
      have := r.offset_le_lastOffset
      omega
    · refine List.eq_nil_iff_forall_not_mem.mpr fun part hpart => hnone part.offset.toNat ?_
      exact ⟨part, hpart, Nat.le_refl _, (hparts.within part hpart).2.1⟩

end Range

namespace Ranges

/-- No part has to be dropped for having no bytes. -/
theorem exclude_eq_flatMap (rs cuts : Ranges) : exclude rs cuts = rs.flatMap (·.exclude cuts) := by
  rw [exclude, List.filter_eq_self]
  intro part hpart
  obtain ⟨r, -, hmem⟩ := List.mem_flatMap.mp hpart
  have hlength := Range.length_pos_of_mem_exclude hmem
  rw [Bool.not_eq_true', ← Bool.not_eq_true, Range.isEmpty_iff]
  omega

theorem covers_exclude (rs cuts : Ranges) (x : Nat) :
    Covers (exclude rs cuts) x ↔ Covers rs x ∧ ¬Covers cuts x := by
  rw [exclude_eq_flatMap, covers_flatMap, Covers, ← exists_and_right]
  simp only [Range.covers_exclude, and_assoc]

/-- Cuts that stand for all offsets of some ranges leave those without offsets. -/
theorem exclude_of_covered {rs cuts : Ranges} (h : ∀ x, Covers rs x → Covers cuts x) :
    exclude rs cuts = rs.filter Range.startsLast := by
  rw [exclude_eq_flatMap]
  induction rs with
  | nil => rfl
  | cons r rest ih =>
    simp only [covers_cons, or_imp, forall_and] at h
    rw [List.flatMap_cons, Range.exclude_of_covered h.1, ih h.2, List.filter_cons]
    split <;> rfl

theorem length_pos_of_mem_exclude {rs cuts : Ranges} {part : Range} (h : part ∈ exclude rs cuts) :
    0 < part.length.toNat := by
  rw [exclude_eq_flatMap] at h
  obtain ⟨r, -, hmem⟩ := List.mem_flatMap.mp h
  exact Range.length_pos_of_mem_exclude hmem

end Ranges

end MeasuredBoot
