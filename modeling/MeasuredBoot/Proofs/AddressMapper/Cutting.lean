import MeasuredBoot.Proofs.AddressMapper.Merging
import MeasuredBoot.Proofs.Range.Cutting

/-!
# Cutting ranges of addresses

Ranges are cut as addresses, before they are mapped:

* `Ranges.resolves_of_mem_exclude`: what is left of ranges that are mapped is mapped;
* `Ranges.spans_exclude`: it has the addresses that no cut has, provided that a range past the last word
  overlaps some cut exactly if some cut is past the last word as well (`Ranges.TopCut`);
* `Ranges.noneAlias_iff`: it shares no offset with the cuts if, and only if, no address that is left lies a
  number of flash windows from an address of a cut (`Ranges.NoneAlias`).
-/

namespace MeasuredBoot

/-! ## Parts past the last word -/

namespace Range

variable {r cut part : Range}

theorem not_saturates_between {first stop : Nat} (hfirst : first ≤ lastOffset) (hstop : stop ≤ lastOffset) :
    ¬(between first stop).Saturates := by
  have hlast : lastOffset < UInt64.size := by decide
  rw [Saturates, toNat_offset_between hfirst, toNat_length_between hstop]
  omega

/-- A cut leaves a range past the last word alone, or no such range. -/
theorem mem_subtract_of_saturates (h : part.Saturates) :
    part ∈ r.subtract cut ↔ part = r ∧ ¬part.overlaps cut = true := by
  cases hoverlaps : r.overlaps cut with
  | false =>
    rw [subtract, if_neg (by rw [hoverlaps]; exact Bool.false_ne_true), List.mem_singleton]
    constructor
    · rintro rfl
      exact ⟨rfl, by rw [hoverlaps]; exact Bool.false_ne_true⟩
    · exact And.left
  | true =>
    rw [subtract_of_overlaps hoverlaps]
    constructor
    · intro hpart
      rcases List.mem_append.mp hpart with hmem | hmem
      · split at hmem
        · rw [List.mem_singleton.mp hmem] at h
          exact absurd h (not_saturates_between r.offset_le_lastOffset cut.offset_le_lastOffset)
        · exact absurd hmem List.not_mem_nil
      · split at hmem
        · rw [List.mem_singleton.mp hmem] at h
          exact absurd h (not_saturates_between cut.stop_le_lastOffset r.stop_le_lastOffset)
        · exact absurd hmem List.not_mem_nil
    · rintro ⟨rfl, hapart⟩
      exact absurd hoverlaps hapart

theorem mem_foldl_subtract_of_saturates (h : part.Saturates) (left cuts : Ranges) :
    part ∈ cuts.foldl (fun left cut => left.flatMap (·.subtract cut)) left ↔
      part ∈ left ∧ ∀ cut ∈ cuts, ¬part.overlaps cut = true := by
  induction cuts generalizing left with
  | nil => simp
  | cons cut rest ih =>
    have hstep : part ∈ left.flatMap (·.subtract cut) ↔ part ∈ left ∧ ¬part.overlaps cut = true := by
      rw [List.mem_flatMap]
      simp only [mem_subtract_of_saturates h]
      constructor
      · rintro ⟨r, hr, rfl, hapart⟩
        exact ⟨hr, hapart⟩
      · rintro ⟨hpart, hapart⟩
        exact ⟨part, hpart, rfl, hapart⟩
    rw [List.foldl_cons, ih, hstep, List.forall_mem_cons, and_assoc]

theorem Saturates.isEmpty (h : r.Saturates) : r.isEmpty = false := by
  have hoffset := r.offset.toNat_lt
  rw [Saturates] at h
  simp only [UInt64.size] at h
  rw [← Bool.not_eq_true, isEmpty_iff]
  omega

/-- After all cuts, a range past the last word is left if it was there and none of them overlaps it. -/
theorem mem_exclude_of_saturates (h : part.Saturates) {cuts : Ranges} :
    part ∈ r.exclude cuts ↔ part = r ∧ ∀ cut ∈ cuts, ¬part.overlaps cut = true := by
  rw [exclude, mem_foldl_subtract_of_saturates h]
  refine and_congr_left fun _ => ?_
  split
  · rename_i hempty
    constructor
    · exact fun hpart => absurd hpart List.not_mem_nil
    · rintro rfl
      rw [h.isEmpty] at hempty
      cases hempty
  · exact List.mem_singleton

/-- What is left of a range has bytes, and they lie within it. -/
theorem within_of_mem_exclude {cuts : Ranges} (h : part ∈ r.exclude cuts) :
    r.offset.toNat ≤ part.offset.toNat ∧ 0 < part.length.toNat ∧
      part.offset.toNat + part.length.toNat ≤ r.offset.toNat + r.length.toNat := by
  have hpos := length_pos_of_mem_exclude h
  by_cases hsaturates : part.Saturates
  · obtain rfl := ((mem_exclude_of_saturates hsaturates).mp h).1
    exact ⟨Nat.le_refl _, hpos, Nat.le_refl _⟩
  · have hstop : part.stop = part.offset.toNat + part.length.toNat := stop_eq_add (Nat.lt_of_not_le hsaturates)
    rcases r.exclude_cases cuts with hnone | ⟨hself, -⟩ | hparts
    · rw [hnone] at h
      exact absurd h List.not_mem_nil
    · rw [hself, List.mem_singleton] at h
      subst h
      exact ⟨Nat.le_refl _, hpos, Nat.le_refl _⟩
    · obtain ⟨hfirst, -, hlast⟩ := hparts.within part h
      have hle := r.stop_le_add
      exact ⟨hfirst, hpos, by omega⟩

end Range

/-! ## Parts that are mapped -/

namespace AddressMapper

variable {mapper : AddressMapper} {size : Nat} {x y : UInt64}

theorem Resolves.of_within {r part : Range} (h : mapper.Resolves size r)
    (hpart : r.offset.toNat ≤ part.offset.toNat ∧ 0 < part.length.toNat ∧
      part.offset.toNat + part.length.toNat ≤ r.offset.toNat + r.length.toNat) :
    mapper.Resolves size part := by
  cases mapper with
  | physMem =>
    rw [resolves_physMem_iff] at h ⊢
    omega
  | amdFlash =>
    rw [resolves_amdFlash_iff] at h ⊢
    simp only [flashWindow] at h ⊢
    omega

/-- The addresses of a range that is mapped are mapped. -/
theorem Resolves.exists_offset? {r : Range} (h : mapper.Resolves size r) (hx : r.Spans x) :
    ∃ offset, mapper.offset? size x = some offset := by
  obtain ⟨offset, hoffset⟩ := h
  exact ⟨_, offset?_of_spans hoffset hx⟩

/-- Below 4 GiB, each offset has one address. -/
theorem eq_of_offset?_physMem {offset : Nat} (hx : physMem.offset? size x = some offset)
    (hy : physMem.offset? size y = some offset) : x = y := by
  rw [offset?_physMem_eq_some_iff] at hx hy
  exact UInt64.toNat_inj.mp (by omega)

/-- In the flash window, the addresses of an offset are those that lie a number of windows apart. -/
theorem offset?_amdFlash_eq_iff {offset : Nat} (hx : amdFlash.offset? size x = some offset) :
    amdFlash.offset? size y = some offset ↔ x.toNat % flashWindow = y.toNat % flashWindow := by
  rw [offset?_amdFlash_eq_some_iff] at hx ⊢
  omega

end AddressMapper

/-! ## Cutting what is mapped -/

namespace Ranges

open AddressMapper (flashWindow)

variable {rs cuts : Ranges} {part : Range}

theorem mem_exclude_iff : part ∈ exclude rs cuts ↔ ∃ r ∈ rs, part ∈ r.exclude cuts := by
  rw [exclude_eq_flatMap, List.mem_flatMap]

/-- A range past the last word overlaps some cut exactly if some cut is past the last word as well. -/
def TopCut (rs cuts : Ranges) : Prop :=
  ∀ r ∈ rs, r.Saturates → ((∃ cut ∈ cuts, r.overlaps cut = true) ↔ ∃ cut ∈ cuts, cut.Saturates)

/-- A stop is held at the last word. -/
theorem not_covers_lastOffset (rs : Ranges) : ¬Covers rs lastOffset := by
  rintro ⟨r, -, -, hlt⟩
  have := r.stop_le_lastOffset
  omega

/-- What is left has the addresses that no cut has. -/
theorem spans_exclude (htop : rs.TopCut cuts) (x : UInt64) :
    Spans (exclude rs cuts) x ↔ Spans rs x ∧ ¬Spans cuts x := by
  have hsaturates : (∃ part ∈ exclude rs cuts, part.Saturates) ↔
      (∃ r ∈ rs, r.Saturates) ∧ ¬∃ cut ∈ cuts, cut.Saturates := by
    constructor
    · rintro ⟨part, hpart, hpart'⟩
      obtain ⟨r, hr, hmem⟩ := mem_exclude_iff.mp hpart
      obtain ⟨rfl, hapart⟩ := (Range.mem_exclude_of_saturates hpart').mp hmem
      refine ⟨⟨part, hr, hpart'⟩, fun hcut => ?_⟩
      obtain ⟨cut, hcut, hoverlaps⟩ := (htop part hr hpart').mpr hcut
      exact hapart cut hcut hoverlaps
    · rintro ⟨⟨r, hr, hr'⟩, hnone⟩
      refine ⟨r, mem_exclude_iff.mpr ⟨r, hr, (Range.mem_exclude_of_saturates hr').mpr ⟨rfl, ?_⟩⟩, hr'⟩
      exact fun cut hcut hoverlaps => hnone ((htop r hr hr').mp ⟨cut, hcut, hoverlaps⟩)
  rw [spans_iff, spans_iff, spans_iff, covers_exclude, hsaturates]
  by_cases hx : x.toNat = lastOffset
  · simp only [hx, not_covers_lastOffset, false_and, false_or, true_and]
  · simp only [hx, false_and, or_false]

/-- No address of the list without the cuts lies a number of flash windows from an address of a cut. -/
def NoneAlias (rs cuts : Ranges) : Prop :=
  ∀ x y, Spans rs x → ¬Spans cuts x → Spans cuts y → x.toNat % flashWindow ≠ y.toNat % flashWindow

theorem noneAlias_nil (cuts : Ranges) : NoneAlias [] cuts :=
  fun _ _ ⟨_, hmem, _⟩ => absurd hmem List.not_mem_nil

/-- All ranges lie within one flash window. -/
def InWindow (rs : Ranges) (n : Nat) : Prop :=
  ∀ r ∈ rs, n * flashWindow ≤ r.offset.toNat ∧ r.offset.toNat + r.length.toNat ≤ (n + 1) * flashWindow

/-- Within one window, different addresses are no number of windows apart. -/
theorem InWindow.noneAlias {n : Nat} (hrs : rs.InWindow n) (hcuts : cuts.InWindow n) : rs.NoneAlias cuts := by
  rintro x y ⟨r, hr, hxfirst, hxlast⟩ hcut ⟨cut, hcutmem, hyfirst, hylast⟩ hmod
  have hxwindow := hrs r hr
  have hywindow := hcuts cut hcutmem
  have hxy : x = y := by
    simp only [flashWindow] at hmod hxwindow hywindow
    exact UInt64.toNat_inj.mp (by omega)
  exact hcut ⟨cut, hcutmem, hxy ▸ ⟨hyfirst, hylast⟩⟩

section Mapped

variable {mapper : AddressMapper} {size : Nat}

theorem exists_offset?_of_spans (h : ∀ r ∈ rs, mapper.Resolves size r) {x : UInt64} (hx : Spans rs x) :
    ∃ offset, mapper.offset? size x = some offset := by
  obtain ⟨r, hr, hx⟩ := hx
  exact (h r hr).exists_offset? hx

/-- What is left of ranges that are mapped is mapped. -/
theorem resolves_of_mem_exclude (h : ∀ r ∈ rs, mapper.Resolves size r) (hpart : part ∈ exclude rs cuts) :
    mapper.Resolves size part := by
  obtain ⟨r, hr, hmem⟩ := mem_exclude_iff.mp hpart
  exact (h r hr).of_within (Range.within_of_mem_exclude hmem)

/-- What is left shares no offset with the cuts, unless addresses in different flash windows do. -/
theorem noneAlias_iff (htop : rs.TopCut cuts) (hrs : ∀ r ∈ rs, mapper.Resolves size r) :
    (∀ x y offset, Spans (exclude rs cuts) x → Spans cuts y → mapper.offset? size x = some offset →
      mapper.offset? size y ≠ some offset) ↔ (mapper = .amdFlash → rs.NoneAlias cuts) := by
  simp only [spans_exclude htop]
  constructor
  · rintro hapart rfl x y hx hcut hy hmod
    obtain ⟨offset, hoffset⟩ := exists_offset?_of_spans hrs hx
    exact hapart x y offset ⟨hx, hcut⟩ hy hoffset ((AddressMapper.offset?_amdFlash_eq_iff hoffset).mpr hmod)
  · rintro hnone x y offset ⟨hx, hcut⟩ hy hxoffset hyoffset
    cases mapper with
    | physMem =>
      obtain rfl := AddressMapper.eq_of_offset?_physMem hxoffset hyoffset
      exact hcut hy
    | amdFlash =>
      exact hnone rfl x y hx hcut hy ((AddressMapper.offset?_amdFlash_eq_iff hxoffset).mp hyoffset)

end Mapped

end Ranges

end MeasuredBoot
