import Mathlib.Data.List.Sort
import MeasuredBoot.Range

/-!
# The offsets that ranges stand for

What the operations on ranges need of offsets, stops and their order:

* `Range.stop_between`, `Range.covers_between`: a range given by its first offset and its stop;
* `Range.le_iff`, `Ranges.eq_of_perm`: ranges are in a linear order, so that a list of them has one
  ascending arrangement (`Ranges.sort_congr`);
* `Ranges.covers_append`, `Ranges.covers_perm`: lists of ranges.
-/

namespace MeasuredBoot

namespace Range

/-- The range has bytes, and the sum of its offset and its length is a 64-bit word. -/
def Proper (r : Range) : Prop :=
  0 < r.length.toNat ∧ r.offset.toNat + r.length.toNat < UInt64.size

theorem offset_le_lastOffset (r : Range) : r.offset.toNat ≤ lastOffset :=
  Nat.le_sub_one_of_lt r.offset.toNat_lt

theorem stop_le_lastOffset (r : Range) : r.stop ≤ lastOffset := Nat.min_le_right _ _

theorem offset_le_stop (r : Range) : r.offset.toNat ≤ r.stop :=
  Nat.le_min.mpr ⟨Nat.le_add_right _ _, r.offset_le_lastOffset⟩

theorem stop_le_add (r : Range) : r.stop ≤ r.offset.toNat + r.length.toNat := Nat.min_le_left _ _

/-- The stop is the sum where that is a 64-bit word. -/
theorem stop_eq_add {r : Range} (h : r.offset.toNat + r.length.toNat < UInt64.size) :
    r.stop = r.offset.toNat + r.length.toNat :=
  Nat.min_eq_left (Nat.le_sub_one_of_lt h)

theorem Proper.stop_eq {r : Range} (h : r.Proper) : r.stop = r.offset.toNat + r.length.toNat :=
  stop_eq_add h.2

theorem Proper.covers_offset {r : Range} (h : r.Proper) : r.Covers r.offset.toNat := by
  have hstop := h.stop_eq
  have hlength := h.1
  exact ⟨Nat.le_refl _, by omega⟩

/-- A range is given by its offset and its stop, as long as the stop is the sum. -/
theorem Proper.ext {r s : Range} (hr : r.Proper) (hs : s.Proper)
    (hoffset : r.offset.toNat = s.offset.toNat) (hstop : r.stop = s.stop) : r = s := by
  have hlength : r.length.toNat = s.length.toNat := by
    have := hr.stop_eq
    have := hs.stop_eq
    omega
  cases r
  cases s
  simp only [mk.injEq]
  exact ⟨UInt64.toNat_inj.mp hoffset, UInt64.toNat_inj.mp hlength⟩

/-! ## Ranges by first offset and stop -/

section Between

variable {first stop : Nat}

theorem toNat_offset_between (h : first ≤ lastOffset) : (between first stop).offset.toNat = first :=
  UInt64.toNat_ofNat_of_lt' (Nat.lt_of_le_of_lt h (by decide))

theorem toNat_length_between (h : stop ≤ lastOffset) :
    (between first stop).length.toNat = stop - first := by
  have hlt : stop - first < UInt64.size :=
    Nat.lt_of_le_of_lt (Nat.le_trans (Nat.sub_le _ _) h) (by decide)
  exact UInt64.toNat_ofNat_of_lt' hlt

theorem stop_between (hle : first ≤ stop) (hlast : stop ≤ lastOffset) :
    (between first stop).stop = stop := by
  rw [Range.stop, toNat_offset_between (by omega), toNat_length_between hlast]
  omega

theorem covers_between (hle : first ≤ stop) (hlast : stop ≤ lastOffset) (x : Nat) :
    (between first stop).Covers x ↔ first ≤ x ∧ x < stop := by
  rw [Covers, toNat_offset_between (by omega), stop_between hle hlast]

theorem proper_between (hlt : first < stop) (hlast : stop ≤ lastOffset) :
    (between first stop).Proper := by
  have hsize : lastOffset < UInt64.size := by decide
  rw [Proper, toNat_offset_between (by omega), toNat_length_between hlast]
  omega

end Between

/-! ## Order -/

theorem le_iff {a b : Range} : a.le b = true ↔ a.offset.toNat < b.offset.toNat ∨
    a.offset.toNat = b.offset.toNat ∧ a.length.toNat ≤ b.length.toNat := by
  show ((compareOfLessAndEq a.offset b.offset).then
    (compareOfLessAndEq a.length b.length)).isLE = true ↔ _
  simp only [compareOfLessAndEq, ← UInt64.toNat_inj, UInt64.lt_iff_toNat_lt]
  split_ifs <;> simp <;> omega

theorem le_total (a b : Range) : (a.le b || b.le a) = true := by
  rw [Bool.or_eq_true, le_iff, le_iff]
  omega

theorem le_trans (a b c : Range) (hab : a.le b = true) (hbc : b.le c = true) : a.le c = true := by
  rw [le_iff] at *
  omega

theorem le_antisymm {a b : Range} (hab : a.le b = true) (hba : b.le a = true) : a = b := by
  rw [le_iff] at hab hba
  cases a
  cases b
  simp only [mk.injEq, ← UInt64.toNat_inj]
  dsimp only at hab hba
  omega

theorem offset_le_of_le {a b : Range} (h : a.le b = true) : a.offset.toNat ≤ b.offset.toNat := by
  have := le_iff.mp h
  omega

end Range

namespace Ranges

variable {rs ss : Ranges}

/-! ## Ascending arrangements -/

theorem pairwise_sort (rs : Ranges) : (sort rs).Pairwise (Range.le · · = true) :=
  List.pairwise_mergeSort Range.le_trans Range.le_total rs

theorem perm_sort (rs : Ranges) : (sort rs).Perm rs := List.mergeSort_perm rs Range.le

theorem sort_of_pairwise (h : rs.Pairwise (Range.le · · = true)) : sort rs = rs :=
  List.mergeSort_of_pairwise h

/-- The order in which ranges were given does not show in their ascending arrangement. -/
theorem sort_congr (h : rs.Perm ss) : sort rs = sort ss :=
  List.Perm.eq_of_pairwise (fun _ _ _ _ => Range.le_antisymm) (pairwise_sort rs) (pairwise_sort ss)
    (((perm_sort rs).trans h).trans (perm_sort ss).symm)

/-! ## Lists of ranges -/

@[simp] theorem covers_nil (x : Nat) : Covers [] x ↔ False :=
  ⟨fun ⟨_, hmem, _⟩ => List.not_mem_nil hmem, False.elim⟩

@[simp] theorem covers_cons (r : Range) (rs : Ranges) (x : Nat) :
    Covers (r :: rs) x ↔ r.Covers x ∨ Covers rs x := by
  simp only [Covers, List.mem_cons, exists_eq_or_imp]

theorem covers_append (rs ss : Ranges) (x : Nat) :
    Covers (rs ++ ss) x ↔ Covers rs x ∨ Covers ss x := by
  induction rs with
  | nil => simp
  | cons r rest ih => simp [ih, or_assoc]

theorem covers_flatMap {α : Type} (f : α → Ranges) (as : List α) (x : Nat) :
    Covers (as.flatMap f) x ↔ ∃ a ∈ as, Covers (f a) x := by
  induction as with
  | nil => simp
  | cons a rest ih => simp [covers_append, ih]

theorem covers_perm (h : rs.Perm ss) (x : Nat) : Covers rs x ↔ Covers ss x := by
  simp only [Covers, h.mem_iff]

theorem covers_sort (rs : Ranges) (x : Nat) : Covers (sort rs) x ↔ Covers rs x :=
  covers_perm (perm_sort rs) x

end Ranges

end MeasuredBoot
