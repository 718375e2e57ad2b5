import Mathlib.Data.Set.Card
import Mathlib.Order.Interval.Finset.Nat
import MeasuredBoot.Proofs.Range.Covering

/-!
# Merging ranges

Ranges that overlap or touch are joined along the ascending arrangement of a list (`Ranges.merge`). The
result stands for the same offsets and has gaps between its ranges (`Ranges.Separated`), of which there
is one list for a set of offsets:

* `Ranges.forall_mem_sortAndMerge`: what joining keeps holds of the result;
* `Ranges.covers_sortAndMerge`, `Ranges.separated_sortAndMerge`: the offsets and the gaps;
* `Ranges.sortAndMerge_of_separated`, `Ranges.sortAndMerge_congr`: a merged list is left alone, and the
  order of the ranges does not matter;
* `Ranges.Separated.eq_of_covers`, `Ranges.Separated.toNat_totalLength`: proper ranges with gaps between
  them are determined by their offsets, and as long as there are offsets.
-/

namespace MeasuredBoot

namespace Range

variable {a b : Range}

theorem stop_extendTo (a b : Range) : (a.extendTo b).stop = max a.stop b.stop :=
  stop_between (Nat.le_trans a.offset_le_stop (Nat.le_max_left _ _))
    (Nat.max_le.mpr ⟨a.stop_le_lastOffset, b.stop_le_lastOffset⟩)

theorem toNat_offset_extendTo (a b : Range) : (a.extendTo b).offset.toNat = a.offset.toNat :=
  toNat_offset_between a.offset_le_lastOffset

/-- Two ranges that touch, the first of which does not start later, are joined. -/
theorem covers_extendTo (hle : a.offset.toNat ≤ b.offset.toNat) (htouch : b.offset.toNat ≤ a.stop)
    (x : Nat) : (a.extendTo b).Covers x ↔ a.Covers x ∨ b.Covers x := by
  have hb := b.offset_le_stop
  simp only [Covers, toNat_offset_extendTo, stop_extendTo]
  omega

theorem Proper.extendTo (ha : a.Proper) (b : Range) : (a.extendTo b).Proper := by
  have hlt := ha.covers_offset.2
  exact proper_between (Nat.lt_of_lt_of_le hlt (Nat.le_max_left _ _))
    (Nat.max_le.mpr ⟨a.stop_le_lastOffset, b.stop_le_lastOffset⟩)

end Range

namespace Ranges

/-- Each range stops before the ones that come after it start. -/
def Separated (rs : Ranges) : Prop := rs.Pairwise fun a b => a.stop < b.offset.toNat

/-- Joins each range of an ascending list to the one before it, if they touch. -/
def merge : Ranges → Ranges
  | [] => []
  | r :: rest => mergeOnto r rest

variable {rs ss : Ranges} {current : Range}

/-- Where lists of fewer than two ranges are left alone, nothing was to be done. -/
theorem sortAndMerge_eq_merge (rs : Ranges) : sortAndMerge rs = merge (sort rs) := by
  rw [sortAndMerge]
  split
  · match rs with
    | [] => rw [sort, List.mergeSort_nil, merge]
    | [r] => rw [sort, List.mergeSort_singleton, merge, mergeOnto]
    | _ :: _ :: _ => simp_all
  · cases sort rs <;> rfl

/-! ## Joining along an ascending list -/

/-- Starts in ascending order. -/
def Ascending (rs : Ranges) : Prop := rs.Pairwise fun a b => a.offset.toNat ≤ b.offset.toNat

theorem ascending_sort (rs : Ranges) : (sort rs).Ascending :=
  (pairwise_sort rs).imp Range.offset_le_of_le

/-- A property that joining keeps. -/
theorem forall_mem_mergeOnto {P : Range → Prop} (hrs : Ascending (current :: rs)) (hcurrent : P current)
    (hP : ∀ r ∈ rs, P r)
    (hjoin : ∀ a, ∀ b ∈ rs, P a → a.offset.toNat ≤ b.offset.toNat → b.offset.toNat ≤ a.stop →
      P (a.extendTo b)) :
    ∀ r ∈ mergeOnto current rs, P r := by
  induction rs generalizing current with
  | nil => simpa only [mergeOnto, List.forall_mem_singleton] using hcurrent
  | cons r rest ih =>
    obtain ⟨hfirst, hrest⟩ := List.pairwise_cons.mp hrs
    obtain ⟨hr, hPrest⟩ := List.forall_mem_cons.mp hP
    have hjoinRest := fun a b hb => hjoin a b (List.mem_cons_of_mem r hb)
    rw [mergeOnto]
    split
    · rename_i htouch
      have hle := hfirst r List.mem_cons_self
      refine ih (List.pairwise_cons.mpr ⟨fun s hs => ?_, hrest.of_cons⟩)
        (hjoin current r List.mem_cons_self hcurrent hle htouch) hPrest hjoinRest
      rw [Range.toNat_offset_extendTo]
      exact hfirst s (List.mem_cons_of_mem r hs)
    · exact List.forall_mem_cons.mpr ⟨hcurrent, ih hrest hr hPrest hjoinRest⟩

theorem offset_le_of_mem_mergeOnto (hrs : Ascending (current :: rs)) :
    ∀ r ∈ mergeOnto current rs, current.offset.toNat ≤ r.offset.toNat := by
  refine forall_mem_mergeOnto hrs (Nat.le_refl _) (List.pairwise_cons.mp hrs).1 fun a b _ ha _ _ => ?_
  rwa [Range.toNat_offset_extendTo]

/-- The result of joining: gaps between the ranges, and the same offsets. -/
theorem mergeOnto_spec (hrs : Ascending (current :: rs)) :
    Separated (mergeOnto current rs) ∧
      ∀ x, Covers (mergeOnto current rs) x ↔ current.Covers x ∨ Covers rs x := by
  induction rs generalizing current with
  | nil => simp [mergeOnto, Separated]
  | cons r rest ih =>
    obtain ⟨hfirst, hrest⟩ := List.pairwise_cons.mp hrs
    have hle := hfirst r List.mem_cons_self
    rw [mergeOnto]
    split
    · rename_i htouch
      have hextended : Ascending (current.extendTo r :: rest) := by
        refine List.pairwise_cons.mpr ⟨fun s hs => ?_, hrest.of_cons⟩
        rw [Range.toNat_offset_extendTo]
        exact hfirst s (List.mem_cons_of_mem r hs)
      obtain ⟨hseparated, hcovers⟩ := ih hextended
      refine ⟨hseparated, fun x => ?_⟩
      rw [hcovers, Range.covers_extendTo hle htouch, covers_cons, or_assoc]
    · rename_i hgap
      obtain ⟨hseparated, hcovers⟩ := ih hrest
      refine ⟨List.pairwise_cons.mpr ⟨fun s hs => ?_, hseparated⟩, fun x => ?_⟩
      · have := offset_le_of_mem_mergeOnto hrest s hs
        omega
      · rw [covers_cons, hcovers, covers_cons]

theorem mergeOnto_of_separated (h : Separated (current :: rs)) : mergeOnto current rs = current :: rs := by
  induction rs generalizing current with
  | nil => rfl
  | cons r rest ih =>
    obtain ⟨hfirst, hrest⟩ := List.pairwise_cons.mp h
    have hgap := hfirst r List.mem_cons_self
    rw [mergeOnto, if_neg (by omega), ih hrest]

/-! ## Merged lists -/

/-- What holds of the ranges of a list, and is kept when one of them is joined to a range that it
touches, holds of the merged list. -/
theorem forall_mem_sortAndMerge {P : Range → Prop} (hP : ∀ r ∈ rs, P r)
    (hjoin : ∀ a, ∀ b ∈ rs, P a → a.offset.toNat ≤ b.offset.toNat → b.offset.toNat ≤ a.stop →
      P (a.extendTo b)) :
    ∀ r ∈ sortAndMerge rs, P r := by
  have hmem {r : Range} (hr : r ∈ sort rs) : r ∈ rs := (perm_sort rs).mem_iff.mp hr
  have hsorted := ascending_sort rs
  rw [sortAndMerge_eq_merge]
  cases hsort : sort rs with
  | nil => exact fun r hr => absurd hr List.not_mem_nil
  | cons first rest =>
    rw [hsort] at hsorted hmem
    exact forall_mem_mergeOnto hsorted (hP first (hmem List.mem_cons_self))
      (fun r hr => hP r (hmem (List.mem_cons_of_mem first hr)))
      fun a b hb => hjoin a b (hmem (List.mem_cons_of_mem first hb))

theorem sortAndMerge_spec (rs : Ranges) :
    Separated (sortAndMerge rs) ∧ ∀ x, Covers (sortAndMerge rs) x ↔ Covers rs x := by
  have hcovers := covers_sort rs
  have hsorted := ascending_sort rs
  rw [sortAndMerge_eq_merge]
  cases hsort : sort rs with
  | nil =>
    rw [hsort] at hcovers
    exact ⟨List.Pairwise.nil, hcovers⟩
  | cons first rest =>
    rw [hsort] at hsorted hcovers
    obtain ⟨hseparated, hmerged⟩ := mergeOnto_spec hsorted
    exact ⟨hseparated, fun x => by rw [merge, hmerged, ← covers_cons, hcovers]⟩

theorem separated_sortAndMerge (rs : Ranges) : Separated (sortAndMerge rs) := (sortAndMerge_spec rs).1

theorem covers_sortAndMerge (rs : Ranges) (x : Nat) : Covers (sortAndMerge rs) x ↔ Covers rs x :=
  (sortAndMerge_spec rs).2 x

theorem Separated.pairwise_le (h : rs.Separated) : rs.Pairwise (Range.le · · = true) := by
  refine h.imp fun {a b} hgap => Range.le_iff.mpr (.inl ?_)
  have := a.offset_le_stop
  omega

/-- A list with gaps between its ranges is left alone. -/
theorem sortAndMerge_of_separated (h : rs.Separated) : sortAndMerge rs = rs := by
  rw [sortAndMerge_eq_merge, sort_of_pairwise h.pairwise_le]
  cases rs with
  | nil => rfl
  | cons r rest => exact mergeOnto_of_separated h

theorem sortAndMerge_congr (h : rs.Perm ss) : sortAndMerge rs = sortAndMerge ss := by
  rw [sortAndMerge_eq_merge, sortAndMerge_eq_merge, sort_congr h]

theorem mergeOnto_ne_nil (current : Range) (rs : Ranges) : mergeOnto current rs ≠ [] := by
  induction rs generalizing current with
  | nil => exact List.cons_ne_nil _ _
  | cons r rest ih =>
    rw [mergeOnto]
    split
    · exact ih _
    · exact List.cons_ne_nil _ _

theorem sortAndMerge_eq_nil_iff : sortAndMerge rs = [] ↔ rs = [] := by
  constructor
  · intro h
    rw [sortAndMerge_eq_merge] at h
    cases hsort : sort rs with
    | nil => exact (hsort ▸ perm_sort rs).nil_eq.symm
    | cons first rest =>
      rw [hsort] at h
      exact absurd h (mergeOnto_ne_nil first rest)
  · rintro rfl
    rfl

theorem proper_sortAndMerge (h : ∀ r ∈ rs, r.Proper) : ∀ r ∈ sortAndMerge rs, r.Proper :=
  forall_mem_sortAndMerge h fun _ b _ ha _ _ => ha.extendTo b

/-! ## Lists with gaps between their ranges -/

namespace Separated

variable {r : Range}

/-- The offsets of the first range lie before those of the rest. -/
theorem stop_lt_of_covers (h : Separated (r :: rs)) {x : Nat} (hx : Covers rs x) : r.stop < x := by
  obtain ⟨s, hs, hle, -⟩ := hx
  have := (List.pairwise_cons.mp h).1 s hs
  omega

theorem offset_le_of_covers (h : Separated (r :: rs)) {x : Nat} (hx : Covers (r :: rs) x) :
    r.offset.toNat ≤ x := by
  have := r.offset_le_stop
  rcases (covers_cons r rs x).mp hx with hr | hrest
  · exact hr.1
  · have := h.stop_lt_of_covers hrest
    omega

theorem not_covers_stop (h : Separated (r :: rs)) : ¬Covers (r :: rs) r.stop := by
  rw [covers_cons]
  rintro (hr | hrest)
  · exact Nat.lt_irrefl _ hr.2
  · exact Nat.lt_irrefl _ (h.stop_lt_of_covers hrest)

/-- The first ranges of lists for the same offsets start at the least of these and stop before the first
offset that is none. -/
theorem head_eq {s : Range} (hr : Separated (r :: rs)) (hs : Separated (s :: ss)) (hrp : r.Proper)
    (hsp : s.Proper) (h : ∀ x, Covers (r :: rs) x ↔ Covers (s :: ss) x) : r = s := by
  have hrs : s.offset.toNat ≤ r.offset.toNat :=
    hs.offset_le_of_covers ((h _).mp ((covers_cons ..).mpr (.inl hrp.covers_offset)))
  have hsr : r.offset.toNat ≤ s.offset.toNat :=
    hr.offset_le_of_covers ((h _).mpr ((covers_cons ..).mpr (.inl hsp.covers_offset)))
  have hoffset : r.offset.toNat = s.offset.toNat := by omega
  refine hrp.ext hsp hoffset (Nat.le_antisymm ?_ ?_)
  · -- otherwise the first range covers where the second one stops
    by_contra hlt
    refine hs.not_covers_stop ((h _).mp ((covers_cons ..).mpr (.inl ⟨?_, by omega⟩)))
    rw [hoffset]
    exact s.offset_le_stop
  · by_contra hlt
    refine hr.not_covers_stop ((h _).mpr ((covers_cons ..).mpr (.inl ⟨?_, by omega⟩)))
    rw [← hoffset]
    exact r.offset_le_stop

theorem covers_tail_iff (h : Separated (r :: rs)) (x : Nat) :
    Covers rs x ↔ Covers (r :: rs) x ∧ r.stop < x := by
  rw [covers_cons]
  constructor
  · exact fun hx => ⟨.inr hx, h.stop_lt_of_covers hx⟩
  · rintro ⟨hr | hrest, hlt⟩
    · exact absurd hr.2 (by omega)
    · exact hrest

theorem not_covers_nil (hrp : r.Proper) : ¬∀ x, Covers (r :: rs) x ↔ Covers [] x := by
  intro h
  have := (h r.offset.toNat).mp ((covers_cons ..).mpr (.inl hrp.covers_offset))
  rwa [covers_nil] at this

/-- Lists for the same offsets are equal. -/
theorem eq_of_covers (hr : rs.Separated) (hs : ss.Separated) (hrp : ∀ r ∈ rs, r.Proper)
    (hsp : ∀ s ∈ ss, s.Proper) (h : ∀ x, Covers rs x ↔ Covers ss x) : rs = ss := by
  induction rs generalizing ss with
  | nil =>
    cases ss with
    | nil => rfl
    | cons s ss => exact absurd (fun x => (h x).symm) (not_covers_nil (hsp s List.mem_cons_self))
  | cons r rs ih =>
    cases ss with
    | nil => exact absurd h (not_covers_nil (hrp r List.mem_cons_self))
    | cons s ss =>
      obtain ⟨hrp, hrsp⟩ := List.forall_mem_cons.mp hrp
      obtain ⟨hsp, hssp⟩ := List.forall_mem_cons.mp hsp
      obtain rfl := hr.head_eq hs hrp hsp h
      have htail : ∀ x, Covers rs x ↔ Covers ss x := fun x => by
        rw [hr.covers_tail_iff, hs.covers_tail_iff, h]
      rw [ih hr.of_cons hs.of_cons hrsp hssp htail]

end Separated

/-! ## Lengths -/

theorem toNat_foldl_add (total : UInt64) (lengths : List UInt64) :
    (lengths.foldl (· + ·) total).toNat =
      (total.toNat + (lengths.map UInt64.toNat).sum) % UInt64.size := by
  induction lengths generalizing total with
  | nil => simp [Nat.mod_eq_of_lt total.toNat_lt]
  | cons length rest ih =>
    rw [List.foldl_cons, ih, UInt64.toNat_add, List.map_cons, List.sum_cons]
    simp [Nat.add_assoc]

theorem finite_covers (rs : Ranges) : {x | Covers rs x}.Finite :=
  (Set.finite_Iio lastOffset).subset fun _ ⟨r, _, _, hlt⟩ => Nat.lt_of_lt_of_le hlt r.stop_le_lastOffset

theorem ncard_covers_le (rs : Ranges) : {x | Covers rs x}.ncard ≤ lastOffset := by
  have hsub : {x | Covers rs x} ⊆ Set.Iio lastOffset :=
    fun _ ⟨r, _, _, hlt⟩ => Nat.lt_of_lt_of_le hlt r.stop_le_lastOffset
  calc {x | Covers rs x}.ncard ≤ (Set.Iio lastOffset).ncard :=
        Set.ncard_le_ncard hsub (Set.finite_Iio _)
    _ = lastOffset := by rw [Set.ncard_eq_toFinset_card']; simp

/-- The lengths of proper ranges with gaps between them add up to the number of their offsets. -/
theorem Separated.sum_lengths (h : rs.Separated) (hproper : ∀ r ∈ rs, r.Proper) :
    (rs.map (·.length.toNat)).sum = {x | Covers rs x}.ncard := by
  induction rs with
  | nil => simp
  | cons r rest ih =>
    obtain ⟨hr, hrest⟩ := List.forall_mem_cons.mp hproper
    have hsplit : {x | Covers (r :: rest) x} = Set.Ico r.offset.toNat r.stop ∪ {x | Covers rest x} := by
      ext x
      simp [Range.Covers]
    have hdisjoint : Disjoint (Set.Ico r.offset.toNat r.stop) {x | Covers rest x} := by
      refine Set.disjoint_left.mpr fun x hx hcovers => ?_
      have := h.stop_lt_of_covers hcovers
      have := hx.2
      omega
    have hfirst : (Set.Ico r.offset.toNat r.stop).ncard = r.length.toNat := by
      rw [Set.ncard_eq_toFinset_card', Set.toFinset_Ico, Nat.card_Ico, hr.stop_eq]
      omega
    rw [hsplit, Set.ncard_union_eq hdisjoint (Set.finite_Ico _ _) (finite_covers rest), hfirst,
      List.map_cons, List.sum_cons, ih h.of_cons hrest]

/-- The total length is the number of offsets, which is a 64-bit word. -/
theorem Separated.toNat_totalLength (h : rs.Separated) (hproper : ∀ r ∈ rs, r.Proper) :
    (totalLength rs).toNat = {x | Covers rs x}.ncard := by
  have hbound := ncard_covers_le rs
  have hlt : {x | Covers rs x}.ncard < UInt64.size := Nat.lt_of_le_of_lt hbound (by decide)
  rw [totalLength, toNat_foldl_add, List.map_map]
  show (0 + (rs.map (·.length.toNat)).sum) % UInt64.size = _
  rw [h.sum_lengths hproper, Nat.zero_add, Nat.mod_eq_of_lt hlt]

end Ranges

end MeasuredBoot
