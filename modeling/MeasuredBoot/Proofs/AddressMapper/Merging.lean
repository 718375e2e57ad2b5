import MeasuredBoot.Proofs.AddressMapper.Translation

/-!
# Merging ranges of addresses

Ranges are merged as addresses, before they are mapped:

* `Ranges.resolves_sortAndMerge`, `Ranges.noneMeetAtEdge_of_resolves`: the merged ranges are mapped if, and
  only if, no two of them had bytes at opposite ends of the flash window (`Ranges.NoneMeetAtEdge`);
* `Ranges.spans_sortAndMerge`: they have the same addresses as before, unless a range up to the last word is
  joined to another one (`Ranges.TopApart`): the joined range stops before that word.
-/

namespace MeasuredBoot.Ranges

variable {rs : Ranges} {current r : Range} {x : UInt64}

/-- The words that some range of the list spans. -/
def Spans (rs : Ranges) (x : UInt64) : Prop := ∃ r ∈ rs, r.Spans x

/-- No range has bytes up to an edge of the flash window at which another one has bytes. -/
def NoneMeetAtEdge (rs : Ranges) : Prop := ∀ a ∈ rs, ∀ b ∈ rs, ¬a.MeetsAtEdge b

/-- A range past the last word starts after all others have stopped. -/
def TopApart (rs : Ranges) : Prop :=
  ∀ r ∈ rs, r.Saturates → ∀ s ∈ rs.erase r, s.stop < r.offset.toNat

/-! ## A range past the last word -/

/-- A range after the stops of all others is not joined to them. -/
theorem mergeOnto_concat (h : ∀ s ∈ current :: rs, s.stop < r.offset.toNat) :
    mergeOnto current (rs ++ [r]) = mergeOnto current rs ++ [r] := by
  induction rs generalizing current with
  | nil =>
    have hgap := h current List.mem_cons_self
    rw [List.nil_append, mergeOnto.eq_2, if_neg (by omega)]
    rfl
  | cons s rest ih =>
    obtain ⟨hcurrent, hrest⟩ := List.forall_mem_cons.mp h
    obtain ⟨hs, htail⟩ := List.forall_mem_cons.mp hrest
    rw [List.cons_append, mergeOnto, mergeOnto]
    split
    · refine ih (List.forall_mem_cons.mpr ⟨?_, htail⟩)
      rw [Range.stop_extendTo]
      exact Nat.max_lt.mpr ⟨hcurrent, hs⟩
    · rw [ih hrest, List.cons_append]

theorem sort_of_forall_stop_lt {others : Ranges} (hperm : rs.Perm (r :: others))
    (h : ∀ s ∈ others, s.stop < r.offset.toNat) : sort rs = sort others ++ [r] := by
  have hpairwise : (sort others ++ [r]).Pairwise (Range.le · · = true) := by
    refine List.pairwise_append.mpr ⟨pairwise_sort others, List.pairwise_singleton _ _, fun s hs t ht => ?_⟩
    rw [List.mem_singleton.mp ht]
    have hgap := h s ((perm_sort others).mem_iff.mp hs)
    have hs' := s.offset_le_stop
    exact Range.le_iff.mpr (.inl (by omega))
  have hsame : rs.Perm (sort others ++ [r]) :=
    hperm.trans ((List.perm_append_singleton r others).symm.trans ((perm_sort others).symm.append_right [r]))
  rw [sort_congr hsame, sort_of_pairwise hpairwise]

/-- Where it starts after all others have stopped, a range past the last word is kept. -/
theorem mem_sortAndMerge_of_saturates (htop : rs.TopApart) (hr : r ∈ rs) (hsaturates : r.Saturates) :
    r ∈ sortAndMerge rs := by
  have hgap := htop r hr hsaturates
  rw [sortAndMerge_eq_merge, sort_of_forall_stop_lt (List.perm_cons_erase hr) hgap]
  cases hsort : sort (rs.erase r) with
  | nil => exact List.mem_singleton_self r
  | cons first rest =>
    rw [List.cons_append, merge, mergeOnto_concat]
    · exact List.mem_append_right _ (List.mem_singleton_self r)
    · intro s hs
      rw [← hsort] at hs
      exact hgap s ((perm_sort _).mem_iff.mp hs)

/-- Joining makes no range past the last word. -/
theorem mem_of_mem_sortAndMerge_of_saturates (hr : r ∈ sortAndMerge rs) (hsaturates : r.Saturates) :
    r ∈ rs :=
  forall_mem_sortAndMerge (P := fun r => r.Saturates → r ∈ rs) (fun _ hs _ => hs)
    (fun a b _ _ _ _ hjoined => absurd hjoined (Range.not_saturates_extendTo a b)) r hr hsaturates

theorem spans_iff : Spans rs x ↔ Covers rs x.toNat ∨
    x.toNat = lastOffset ∧ ∃ r ∈ rs, r.Saturates := by
  simp only [Spans, Covers, Range.spans_iff, and_or_left, exists_or, and_left_comm (b := x.toNat = _),
    exists_and_left]

/-- Merging keeps the addresses. -/
theorem spans_sortAndMerge (htop : rs.TopApart) (x : UInt64) :
    Spans (sortAndMerge rs) x ↔ Spans rs x := by
  have hsaturates : (∃ r ∈ sortAndMerge rs, r.Saturates) ↔ ∃ r ∈ rs, r.Saturates := by
    constructor
    · rintro ⟨r, hr, hr'⟩
      exact ⟨r, mem_of_mem_sortAndMerge_of_saturates hr hr', hr'⟩
    · rintro ⟨r, hr, hr'⟩
      exact ⟨r, mem_sortAndMerge_of_saturates htop hr hr', hr'⟩
  rw [spans_iff, spans_iff, covers_sortAndMerge, hsaturates]

/-! ## Mapping what was merged -/

section Mapped

variable {mapper : AddressMapper} {size : Nat}

/-- Where the range has bytes, some range of the list with bytes stops where it does. -/
def StopsWith (rs : Ranges) (r : Range) : Prop :=
  0 < r.length.toNat → ∃ s ∈ rs, 0 < s.length.toNat ∧ s.stop = r.stop

theorem StopsWith.extendTo {a b : Range} (ha : rs.StopsWith a) (hb : b ∈ rs)
    (htouch : b.offset.toNat ≤ a.stop) : rs.StopsWith (a.extendTo b) := by
  intro hlength
  have hextended : (a.extendTo b).length.toNat = max a.stop b.stop - a.offset.toNat :=
    Range.toNat_length_between (Nat.max_le.mpr ⟨a.stop_le_lastOffset, b.stop_le_lastOffset⟩)
  rw [Range.stop_extendTo]
  by_cases hstop : b.stop ≤ a.stop
  · have hastop := a.stop_le_add
    obtain ⟨s, hs, hpos, hsame⟩ := ha (by omega)
    exact ⟨s, hs, hpos, by omega⟩
  · have hbstop := b.stop_le_add
    exact ⟨b, hb, by omega, by omega⟩

/-- Merged ranges are mapped. What a joined range meets at an edge of the window, a range of the list with
the same stop met already. -/
theorem resolves_sortAndMerge (h : ∀ r ∈ rs, mapper.Resolves size r)
    (hedge : mapper = .amdFlash → rs.NoneMeetAtEdge) : ∀ r ∈ sortAndMerge rs, mapper.Resolves size r := by
  have hall : ∀ r ∈ sortAndMerge rs, mapper.Resolves size r ∧ rs.StopsWith r := by
    refine forall_mem_sortAndMerge (fun r hr => ⟨h r hr, fun hlength => ⟨r, hr, hlength, rfl⟩⟩) ?_
    rintro a b hb ⟨ha, hstops⟩ hle htouch
    refine ⟨ha.extendTo (h b hb) hle htouch ?_, hstops.extendTo hb htouch⟩
    rintro hmapper ⟨hapos, hbpos, hmeet, hmod⟩
    obtain ⟨s, hs, hpos, hstop⟩ := hstops hapos
    exact hedge hmapper s hs b hb ⟨hpos, hbpos, hstop.trans hmeet, hmod⟩
  exact fun r hr => (hall r hr).1

/-- Ranges with gaps between them do not share offsets. -/
theorem Separated.eq_of_covers_succ (h : rs.Separated) {a b : Range} (ha : a ∈ rs) (hb : b ∈ rs) {n : Nat}
    (hna : a.Covers n) (hnb : b.Covers (n + 1)) : a = b := by
  obtain ⟨hafirst, halast⟩ := hna
  obtain ⟨hbfirst, hblast⟩ := hnb
  induction rs with
  | nil => exact absurd ha List.not_mem_nil
  | cons r rest ih =>
    obtain ⟨hgap, hrest⟩ := List.pairwise_cons.mp h
    rcases List.mem_cons.mp ha with rfl | ha' <;> rcases List.mem_cons.mp hb with rfl | hb'
    · rfl
    · have := hgap b hb'
      omega
    · have := hgap a ha'
      omega
    · exact ih hrest ha' hb'

/-- Where ranges meet at an edge of the flash window, the merged range around it is not mapped. -/
theorem noneMeetAtEdge_of_resolves (h : ∀ r ∈ sortAndMerge rs, AddressMapper.amdFlash.Resolves size r) :
    rs.NoneMeetAtEdge := by
  rintro a ha b hb ⟨hapos, hbpos, hstop, hedge⟩
  have haoffset := a.offset_le_lastOffset
  have hboffset := b.offset_le_lastOffset
  simp only [Range.stop] at hstop
  simp only [AddressMapper.flashWindow] at hedge
  simp only [lastOffset, UInt64.size] at hstop haoffset hboffset
  have hbelow : a.Covers (b.offset.toNat - 1) := by
    simp only [Range.Covers, Range.stop, lastOffset, UInt64.size]
    omega
  have habove : b.Covers (b.offset.toNat - 1 + 1) := by
    simp only [Range.Covers, Range.stop, lastOffset, UInt64.size]
    omega
  obtain ⟨r, hr, hrbelow⟩ := (covers_sortAndMerge rs _).mpr ⟨a, ha, hbelow⟩
  obtain ⟨s, hs, hsabove⟩ := (covers_sortAndMerge rs _).mpr ⟨b, hb, habove⟩
  obtain rfl := (separated_sortAndMerge rs).eq_of_covers_succ hr hs hrbelow hsabove
  have hend := (AddressMapper.resolves_amdFlash_iff.mp (h r hr)).2
  have hrstop := r.stop_le_add
  obtain ⟨hfirst, -⟩ := hrbelow
  obtain ⟨-, hlast⟩ := hsabove
  simp only [AddressMapper.flashWindow] at hend
  omega

end Mapped

end MeasuredBoot.Ranges
