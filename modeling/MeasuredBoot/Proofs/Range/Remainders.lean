import MeasuredBoot.Proofs.Range.Cutting

/-!
# Runs of offsets that cuts leave

What cuts leave of a range are runs of offsets (`Range.IsRun`): each part is as long as it can be without
taking in an offset of a cut, or reaching across an empty cut. An empty cut has no offsets, and still breaks
a run in two if it lies between two offsets of the run.

* `Range.IsRun.of_mem_subtract`: what one cut makes of a run;
* `Range.IsRun.eq_of_covers`: a run is told by any offset of it;
* `Range.mem_exclude_iff_isRun`: the parts that cuts leave are the runs, all of them;
* `Range.exclude_runs`: so that only the offsets of the cuts, and the places of the empty ones, matter.
-/

namespace MeasuredBoot

/-- An empty cut lies at an offset. -/
def Ranges.EmptyAt (cuts : Ranges) (x : Nat) : Prop :=
  ∃ cut ∈ cuts, cut.isEmpty = true ∧ cut.offset.toNat = x

namespace Range

/-- A range of offsets with a property that does not reach across a break, and to which no offset next to it
can be added without one of the two: it goes on neither below nor above, except across a break. -/
structure IsRun (P breaks : Nat → Prop) (part : Range) : Prop where
  proper : part.Proper
  inside : ∀ x, part.Covers x → P x
  unbroken : ∀ x, part.offset.toNat < x → x < part.stop → ¬breaks x
  below : ∀ x, x + 1 = part.offset.toNat → P x → breaks part.offset.toNat
  above : P part.stop → breaks part.stop

/-- A longest range of offsets with a property. -/
def MaximalRun (P : Nat → Prop) (part : Range) : Prop := part.IsRun P fun _ => False

/-- An offset of a range that no cut stands for. -/
def Remains (r : Range) (cuts : Ranges) (x : Nat) : Prop := r.Covers x ∧ ¬Ranges.Covers cuts x

/-- No empty cut lies between two offsets that remain. -/
def Unbroken (r : Range) (cuts : Ranges) : Prop :=
  ∀ x, r.Remains cuts x → r.Remains cuts (x + 1) → ¬Ranges.EmptyAt cuts (x + 1)

variable {r part cut : Range} {cuts : Ranges} {P breaks : Nat → Prop}

/-! ## One cut -/

theorem Proper.offset_lt_stop (h : r.Proper) : r.offset.toNat < r.stop := h.covers_offset.2

theorem Proper.not_isEmpty (h : r.Proper) : ¬r.isEmpty = true := by
  have hlength := h.1
  rw [isEmpty_iff]
  omega

/-- A cut without offsets, below the last word, is empty. -/
theorem isEmpty_of_stop_le (hstop : cut.stop ≤ cut.offset.toNat) (hlast : cut.stop < lastOffset) :
    cut.isEmpty = true ∧ cut.stop = cut.offset.toNat := by
  have hle := cut.offset_le_stop
  rw [isEmpty_iff]
  rw [stop] at *
  omega

theorem stop_of_isEmpty (h : cut.isEmpty = true) : cut.stop = cut.offset.toNat :=
  Nat.le_antisymm ((stop_le_add cut).trans (by rw [isEmpty_iff.mp h, Nat.add_zero])) cut.offset_le_stop

/-- The offsets of a run that a cut leaves, and its breaks with that of an empty cut. -/
theorem IsRun.of_apart (h : r.IsRun P breaks)
    (hapart : ¬(r.offset.toNat < cut.stop ∧ cut.offset.toNat < r.stop)) :
    r.IsRun (fun x => P x ∧ ¬cut.Covers x)
      (fun x => breaks x ∨ (cut.isEmpty = true ∧ cut.offset.toNat = x)) where
  proper := h.proper
  inside x hx := by
    refine ⟨h.inside x hx, fun hcut => ?_⟩
    rw [Covers] at hx hcut
    omega
  unbroken x hlow hhigh := by
    rintro (hbreak | ⟨hempty, rfl⟩)
    · exact h.unbroken x hlow hhigh hbreak
    · rw [stop_of_isEmpty hempty] at hapart
      exact hapart ⟨hlow, hhigh⟩
  below x hx hP := .inl (h.below x hx hP.1)
  above hP := .inl (h.above hP.1)

/-- What is left of a run below a cut that starts within it. -/
theorem IsRun.belowCut (h : r.IsRun P breaks) (hlow : r.offset.toNat < cut.offset.toNat)
    (hhigh : cut.offset.toNat < r.stop) :
    (between r.offset.toNat cut.offset.toNat).IsRun (fun x => P x ∧ ¬cut.Covers x)
      (fun x => breaks x ∨ (cut.isEmpty = true ∧ cut.offset.toNat = x)) := by
  have hlast := r.stop_le_lastOffset
  have hoffset : (between r.offset.toNat cut.offset.toNat).offset.toNat = r.offset.toNat :=
    toNat_offset_between r.offset_le_lastOffset
  have hstop : (between r.offset.toNat cut.offset.toNat).stop = cut.offset.toNat :=
    stop_between (by omega) (by omega)
  refine ⟨proper_between hlow (by omega), fun x hx => ?_, fun x hfirst hnext => ?_, fun x hx hP => ?_,
    fun hP => ?_⟩
  · rw [Covers, hoffset, hstop] at hx
    refine ⟨h.inside x ⟨hx.1, by omega⟩, fun hcut => ?_⟩
    rw [Covers] at hcut
    omega
  · rw [hoffset] at hfirst
    rw [hstop] at hnext
    rintro (hbreak | ⟨-, rfl⟩)
    · exact h.unbroken x hfirst (by omega) hbreak
    · exact Nat.lt_irrefl _ hnext
  · rw [hoffset] at hx ⊢
    exact .inl (h.below x hx hP.1)
  · -- the offset that the cut starts at remains only if the cut is empty
    rw [hstop] at hP ⊢
    have hcut : cut.stop ≤ cut.offset.toNat := Nat.le_of_not_lt fun hlt => hP.2 ⟨Nat.le_refl _, hlt⟩
    exact .inr ⟨(isEmpty_of_stop_le hcut (by omega)).1, rfl⟩

/-- What is left of a run above a cut that stops within it. -/
theorem IsRun.aboveCut (h : r.IsRun P breaks) (hlow : r.offset.toNat < cut.stop) (hhigh : cut.stop < r.stop) :
    (between cut.stop r.stop).IsRun (fun x => P x ∧ ¬cut.Covers x)
      (fun x => breaks x ∨ (cut.isEmpty = true ∧ cut.offset.toNat = x)) := by
  have hlast := r.stop_le_lastOffset
  have hoffset : (between cut.stop r.stop).offset.toNat = cut.stop :=
    toNat_offset_between cut.stop_le_lastOffset
  have hstop : (between cut.stop r.stop).stop = r.stop := stop_between (by omega) hlast
  refine ⟨proper_between hhigh hlast, fun x hx => ?_, fun x hfirst hnext => ?_, fun x hx hP => ?_,
    fun hP => ?_⟩
  · rw [Covers, hoffset, hstop] at hx
    refine ⟨h.inside x ⟨by omega, hx.2⟩, fun hcut => ?_⟩
    rw [Covers] at hcut
    omega
  · rw [hoffset] at hfirst
    rw [hstop] at hnext
    rintro (hbreak | ⟨hempty, rfl⟩)
    · exact h.unbroken x (by omega) hnext hbreak
    · rw [stop_of_isEmpty hempty] at hfirst
      exact Nat.lt_irrefl _ hfirst
  · -- the last offset below the stop of the cut remains only if the cut is empty
    rw [hoffset] at hx ⊢
    have hcut : cut.stop ≤ cut.offset.toNat := Nat.le_of_not_lt fun hlt => hP.2 ⟨by omega, by omega⟩
    obtain ⟨hempty, heq⟩ := isEmpty_of_stop_le hcut (by omega)
    exact .inr ⟨hempty, heq.symm⟩
  · rw [hstop] at hP ⊢
    exact .inl (h.above hP.1)

/-- What one cut leaves of a run are runs of the offsets that it leaves, where an empty cut is a break. -/
theorem IsRun.of_mem_subtract (h : r.IsRun P breaks) (hpart : part ∈ r.subtract cut) :
    part.IsRun (fun x => P x ∧ ¬cut.Covers x)
      (fun x => breaks x ∨ (cut.isEmpty = true ∧ cut.offset.toNat = x)) := by
  cases hoverlaps : r.overlaps cut with
  | false =>
    have hapart : ¬r.overlaps cut = true := by
      rw [hoverlaps]
      exact Bool.false_ne_true
    rw [subtract, if_neg hapart, List.mem_singleton] at hpart
    subst hpart
    exact h.of_apart fun hboth => hapart (overlaps_iff.mpr hboth)
  | true =>
    obtain ⟨hlow, hhigh⟩ := overlaps_iff.mp hoverlaps
    rw [subtract_of_overlaps hoverlaps, List.mem_append] at hpart
    rcases hpart with hpart | hpart
    · split at hpart
      · rename_i hroom
        obtain rfl := List.mem_singleton.mp hpart
        exact h.belowCut hroom hhigh
      · exact absurd hpart List.not_mem_nil
    · split at hpart
      · rename_i hroom
        obtain rfl := List.mem_singleton.mp hpart
        exact h.aboveCut hlow hroom
      · exact absurd hpart List.not_mem_nil

/-! ## Runs and their offsets -/

/-- Of two runs with a common offset, neither starts before the other. -/
theorem IsRun.offset_le {a b : Range} {x : Nat} (ha : a.IsRun P breaks) (hb : b.IsRun P breaks)
    (hax : a.Covers x) (hbx : b.Covers x) : b.offset.toNat ≤ a.offset.toNat := by
  by_contra hlt
  rw [Covers] at hax hbx
  have hbefore : P (b.offset.toNat - 1) := ha.inside _ ⟨by omega, by omega⟩
  exact ha.unbroken _ (by omega) (by omega) (hb.below _ (by omega) hbefore)

/-- Of two runs with a common offset, neither stops after the other. -/
theorem IsRun.stop_le {a b : Range} {x : Nat} (ha : a.IsRun P breaks) (hb : b.IsRun P breaks)
    (hax : a.Covers x) (hbx : b.Covers x) : a.stop ≤ b.stop := by
  by_contra hlt
  rw [Covers] at hax hbx
  have hafter : P b.stop := ha.inside _ ⟨by omega, by omega⟩
  exact ha.unbroken _ (by omega) (by omega) (hb.above hafter)

/-- A run is told by any offset of it. -/
theorem IsRun.eq_of_covers {a b : Range} {x : Nat} (ha : a.IsRun P breaks) (hb : b.IsRun P breaks)
    (hax : a.Covers x) (hbx : b.Covers x) : a = b :=
  ha.proper.ext hb.proper (Nat.le_antisymm (hb.offset_le ha hbx hax) (ha.offset_le hb hax hbx))
    (Nat.le_antisymm (ha.stop_le hb hax hbx) (hb.stop_le ha hbx hax))

/-- A range is the only run of its offsets. -/
theorem Proper.isRun_self (h : r.Proper) : r.IsRun r.Covers fun _ => False where
  proper := h
  inside _ hx := hx
  unbroken _ _ _ := id
  below x hx hcovers := by
    rw [Covers] at hcovers
    omega
  above hcovers := Nat.lt_irrefl _ hcovers.2

/-- Breaks that do not lie between two offsets with the property make no difference. -/
theorem isRun_iff_maximalRun (h : ∀ x, P x → P (x + 1) → ¬breaks (x + 1)) :
    part.IsRun P breaks ↔ part.MaximalRun P := by
  constructor
  · intro hrun
    have hlt := hrun.proper.offset_lt_stop
    refine ⟨hrun.proper, hrun.inside, fun _ _ _ => id, fun x hx hP => ?_, fun hP => ?_⟩
    · have hfirst := hrun.inside _ hrun.proper.covers_offset
      have hbreak := hrun.below x hx hP
      rw [← hx] at hfirst hbreak
      exact h x hP hfirst hbreak
    · have hlast := hrun.inside (part.stop - 1) ⟨by omega, by omega⟩
      have hbreak := hrun.above hP
      rw [show part.stop = part.stop - 1 + 1 by omega] at hP hbreak
      exact h _ hlast hP hbreak
  · intro hrun
    refine ⟨hrun.proper, hrun.inside, fun x hlow hhigh => ?_, fun x hx hP => (hrun.below x hx hP).elim,
      fun hP => (hrun.above hP).elim⟩
    have hx : x = x - 1 + 1 := by omega
    have hthis := hrun.inside x ⟨by omega, hhigh⟩
    rw [hx] at hthis ⊢
    exact h _ (hrun.inside _ ⟨by omega, by omega⟩) hthis

/-! ## All cuts -/

/-- The parts that cuts leave of runs are runs of what they leave. -/
theorem isRun_of_mem_foldl_subtract {left : Ranges} (h : ∀ part ∈ left, part.IsRun P breaks)
    (hpart : part ∈ cuts.foldl (fun left cut => left.flatMap (·.subtract cut)) left) :
    part.IsRun (fun x => P x ∧ ¬Ranges.Covers cuts x) (fun x => breaks x ∨ Ranges.EmptyAt cuts x) := by
  induction cuts generalizing left P breaks with
  | nil => simpa [Ranges.EmptyAt] using h part hpart
  | cons cut rest ih =>
    have hstep : ∀ part ∈ left.flatMap (·.subtract cut),
        part.IsRun (fun x => P x ∧ ¬cut.Covers x)
          (fun x => breaks x ∨ (cut.isEmpty = true ∧ cut.offset.toNat = x)) := by
      intro part hpart
      obtain ⟨whole, hwhole, hmem⟩ := List.mem_flatMap.mp hpart
      exact (h whole hwhole).of_mem_subtract hmem
    have := ih hstep hpart
    simpa only [Ranges.covers_cons, not_or, and_assoc, Ranges.EmptyAt, List.mem_cons, exists_eq_or_imp,
      or_assoc] using this

theorem isRun_of_mem_exclude (hr : r.Proper) (hpart : part ∈ r.exclude cuts) :
    part.IsRun (r.Remains cuts) (Ranges.EmptyAt cuts) := by
  have hself : ∀ part ∈ [r], part.IsRun r.Covers fun _ => False :=
    List.forall_mem_singleton.mpr hr.isRun_self
  rw [exclude, if_neg hr.not_isEmpty] at hpart
  have := isRun_of_mem_foldl_subtract hself hpart
  simp only [false_or] at this
  exact this

/-- The parts that cuts leave are the runs of what remains, without one missing. -/
theorem mem_exclude_iff_isRun (hr : r.Proper) :
    part ∈ r.exclude cuts ↔ part.IsRun (r.Remains cuts) (Ranges.EmptyAt cuts) := by
  refine ⟨isRun_of_mem_exclude hr, fun hrun => ?_⟩
  have hfirst := hrun.proper.covers_offset
  obtain ⟨other, hother, hcovers⟩ := (covers_exclude r cuts _).mpr (hrun.inside _ hfirst)
  rwa [hrun.eq_of_covers (isRun_of_mem_exclude hr hother) hfirst hcovers]


/-! ## Cuts that make a difference -/

/-- Parts that ascend are told by which they are. -/
theorem exclude_eq_of_mem_iff {r s : Range} {cuts cuts' : Ranges}
    (h : ∀ part, part ∈ r.exclude cuts ↔ part ∈ s.exclude cuts') : r.exclude cuts = s.exclude cuts' := by
  have hnodup (r : Range) (cuts : Ranges) : (r.exclude cuts).Nodup :=
    (ordered_exclude r cuts).imp fun {a b} hlt heq => by
      subst heq
      exact Nat.lt_irrefl _ hlt.1
  refine List.Perm.eq_of_pairwise (fun a b _ _ hab hba => ?_) (ordered_exclude r cuts) (ordered_exclude s cuts')
    ((List.perm_ext_iff_of_nodup (hnodup r cuts) (hnodup s cuts')).mpr h)
  exact absurd hab.1 (Nat.lt_asymm hba.1)

/-- The cuts that are not empty. -/
theorem remains_filter_iff (r : Range) (cuts : Ranges) (x : Nat) :
    r.Remains (cuts.filter fun cut => !cut.isEmpty) x ↔ r.Remains cuts x := by
  refine and_congr_right fun _ => not_congr ⟨fun ⟨cut, hcut, hx⟩ => ⟨cut, List.mem_of_mem_filter hcut, hx⟩, ?_⟩
  rintro ⟨cut, hcut, hx⟩
  refine ⟨cut, List.mem_filter.mpr ⟨hcut, ?_⟩, hx⟩
  rw [Bool.not_eq_true', ← Bool.not_eq_true]
  exact fun hempty => not_covers_of_isEmpty hempty x hx

/-- Cuts that are not empty leave the maximal runs of what remains. -/
theorem mem_exclude_filter_iff (hr : r.Proper) :
    part ∈ r.exclude (cuts.filter fun cut => !cut.isEmpty) ↔ part.MaximalRun (r.Remains cuts) := by
  have hnone : ∀ x, ¬Ranges.EmptyAt (cuts.filter fun cut => !cut.isEmpty) x := by
    rintro x ⟨cut, hcut, hempty, -⟩
    have hfull := (List.mem_filter.mp hcut).2
    rw [hempty] at hfull
    exact Bool.noConfusion hfull
  rw [mem_exclude_iff_isRun hr, isRun_iff_maximalRun fun x _ _ => hnone (x + 1)]
  simp only [MaximalRun, funext fun x => propext (remains_filter_iff r cuts x)]

/-- Empty cuts make a difference exactly if one of them lies between two offsets that remain. -/
theorem exclude_filter_eq_iff (hr : r.Proper) :
    r.exclude (cuts.filter fun cut => !cut.isEmpty) = r.exclude cuts ↔ r.Unbroken cuts := by
  constructor
  · rintro heq x hx hnext hempty
    obtain ⟨part, hpart, hcovers⟩ := (covers_exclude r cuts x).mpr hx
    have hrun := isRun_of_mem_exclude hr hpart
    rw [← heq, mem_exclude_filter_iff hr] at hpart
    -- as a maximal run, the part goes on to the next offset, across the empty cut
    have hgoes : x + 1 < part.stop := by
      refine Nat.lt_of_le_of_ne hcovers.2 fun hstop => hpart.above ?_
      rwa [← hstop]
    exact hrun.unbroken (x + 1) (Nat.lt_succ_of_le hcovers.1) hgoes hempty
  · intro hunbroken
    refine exclude_eq_of_mem_iff fun part => ?_
    rw [mem_exclude_filter_iff hr, mem_exclude_iff_isRun hr, isRun_iff_maximalRun hunbroken]

/-- Without cuts a range is left as it is. -/
theorem Proper.exclude_nil (h : r.Proper) : r.exclude [] = [r] := by
  rw [exclude, if_neg h.not_isEmpty, List.foldl_nil]

/-- A range of which no cut has an offset is left whole exactly if no empty cut lies inside of it. -/
theorem exclude_eq_self_iff (hr : r.Proper) (hapart : ∀ cut ∈ cuts, ∀ x, cut.Covers x → ¬r.Covers x) :
    r.exclude cuts = [r] ↔ r.Unbroken cuts := by
  have hremains : r.Remains cuts = r.Remains [] := by
    funext x
    refine propext (and_congr_right fun hx => iff_of_true ?_ (Ranges.covers_nil x).mp)
    exact fun ⟨cut, hcut, hcovers⟩ => hapart cut hcut x hcovers hx
  have hself : r.exclude (cuts.filter fun cut => !cut.isEmpty) = [r] := by
    rw [← hr.exclude_nil]
    refine exclude_eq_of_mem_iff fun part => ?_
    rw [mem_exclude_filter_iff hr, hremains]
    exact (@mem_exclude_filter_iff r part [] hr).symm
  rw [← exclude_filter_eq_iff hr, hself]
  exact eq_comm

/-- Cuts leave the maximal runs of the offsets that none of them has, in ascending order, where an empty cut
between two of these offsets breaks a run. It does not matter in which order the cuts are, and how often. Left
to themselves, the cuts that are not empty leave the maximal runs; the empty ones make a difference exactly if
one of them lies between two offsets that remain, also for a range that no cut has an offset of. -/
theorem exclude_runs {r : Range} (hr : r.Proper) (cuts : Ranges) :
    Ranges.Ordered (r.exclude cuts) ∧
    (∀ part, part ∈ r.exclude cuts ↔ part.IsRun (r.Remains cuts) (Ranges.EmptyAt cuts)) ∧
    (∀ cuts' : Ranges, (∀ cut, cut ∈ cuts' ↔ cut ∈ cuts) → r.exclude cuts' = r.exclude cuts) ∧
    (∀ part, part ∈ r.exclude (cuts.filter fun cut => !cut.isEmpty) ↔ part.MaximalRun (r.Remains cuts)) ∧
    (r.exclude (cuts.filter fun cut => !cut.isEmpty) = r.exclude cuts ↔ r.Unbroken cuts) ∧
    ((∀ cut ∈ cuts, ∀ x, cut.Covers x → ¬r.Covers x) → (r.exclude cuts = [r] ↔ r.Unbroken cuts)) := by
  refine ⟨ordered_exclude r cuts, fun part => mem_exclude_iff_isRun hr, fun cuts' hsame => ?_,
    fun part => mem_exclude_filter_iff hr, exclude_filter_eq_iff hr, exclude_eq_self_iff hr⟩
  have hremains : r.Remains cuts' = r.Remains cuts := by
    funext x
    simp only [Remains, Ranges.Covers, hsame]
  have hempty : Ranges.EmptyAt cuts' = Ranges.EmptyAt cuts := by
    funext x
    simp only [Ranges.EmptyAt, hsame]
  refine exclude_eq_of_mem_iff fun part => ?_
  rw [mem_exclude_iff_isRun hr, mem_exclude_iff_isRun hr, hremains, hempty]

/-- Cuts that overlap and repeat, and an empty one below them, inside of what they leave. -/
def brokenCuts : Ranges := [⟨0x20, 0x04⟩, ⟨0x18, 0x00⟩, ⟨0x1E, 0x04⟩, ⟨0x20, 0x04⟩]

/-- Without the empty cut, the first two of the three parts would be one. -/
theorem exclude_runs_brokenCuts :
    Proper ⟨0x10, 0x20⟩ ∧
      exclude ⟨0x10, 0x20⟩ brokenCuts = [⟨0x10, 0x08⟩, ⟨0x18, 0x06⟩, ⟨0x24, 0x0C⟩] ∧
      exclude ⟨0x10, 0x20⟩ brokenCuts.reverse = [⟨0x10, 0x08⟩, ⟨0x18, 0x06⟩, ⟨0x24, 0x0C⟩] ∧
      MaximalRun (Remains ⟨0x10, 0x20⟩ brokenCuts) ⟨0x10, 0x0E⟩ ∧
      ¬Unbroken ⟨0x10, 0x20⟩ brokenCuts := by
  have hproper : Proper ⟨0x10, 0x20⟩ := by
    unfold Proper
    decide
  obtain ⟨-, -, harranged, hmaximal, hunbroken, -⟩ := exclude_runs hproper brokenCuts
  have hparts : exclude ⟨0x10, 0x20⟩ brokenCuts = [⟨0x10, 0x08⟩, ⟨0x18, 0x06⟩, ⟨0x24, 0x0C⟩] := by cbv
  have hfull : exclude ⟨0x10, 0x20⟩ (brokenCuts.filter fun cut => !cut.isEmpty) =
      [⟨0x10, 0x0E⟩, ⟨0x24, 0x0C⟩] := by cbv
  refine ⟨hproper, hparts, ?_, (hmaximal _).mp ?_, fun h => ?_⟩
  · rw [harranged _ fun _ => List.mem_reverse, hparts]
  · rw [hfull]
    exact List.mem_cons_self
  · have hsame := hunbroken.mpr h
    rw [hfull, hparts] at hsame
    exact absurd hsame (by decide)

end Range

end MeasuredBoot
