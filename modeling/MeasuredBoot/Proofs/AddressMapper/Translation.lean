import MeasuredBoot.AddressMapper
import MeasuredBoot.Proofs.Range.Merging
import MeasuredBoot.Proofs.Register.Layout

/-!
# Ranges of addresses as ranges of offsets

A range of addresses is mapped by its first address alone. Where all of it lies within the artifact, this
is the same as mapping address by address (`covers_native_iff`), in both mappers:

* `AddressMapper.resolveRange_eq_ok_iff`: when a range is mapped, and to what;
* `AddressMapper.offset?_of_spans`: the addresses of a mapped range are mapped in a row;
* `AddressMapper.Resolves.extendTo`: joining ranges that are mapped, unless they are bytes at opposite
  ends of the flash window (`Range.MeetsAtEdge`).

The addresses of a range are counted without holding its stop at the last word (`Range.Spans`): a mapped
range may contain the last word, which its stop leaves out.
-/

namespace MeasuredBoot

/-- An artifact has a size that a signed word holds. -/
theorem Artifact.size_lt (a : Artifact) : a.size < UInt64.size / 2 := by
  cases a with
  | biosImage image => exact image.size_lt
  | registers snapshot =>
    show snapshot.layout.size < _
    rw [Registers.size_layout]
    decide

/-- An image of `size` zero bytes. -/
def blankImage (size : Nat) (h : size < UInt64.size / 2) : Artifact :=
  .biosImage ⟨Bytes.replicate size 0, by rwa [Bytes.size_replicate]⟩

theorem size_blankImage {size : Nat} {h : size < UInt64.size / 2} : (blankImage size h).size = size :=
  Bytes.size_replicate size 0

/-! ## The addresses of a range -/

namespace Range

/-- The words from the offset on, as many as the range is long. -/
def Spans (r : Range) (x : UInt64) : Prop :=
  r.offset.toNat ≤ x.toNat ∧ x.toNat < r.offset.toNat + r.length.toNat

/-- The sum of the offset and the length is past the last word, at which the stop is held. -/
def Saturates (r : Range) : Prop := UInt64.size ≤ r.offset.toNat + r.length.toNat

/-- The range has bytes up to a multiple of the flash window, at which the other one has bytes. -/
def MeetsAtEdge (a b : Range) : Prop :=
  0 < a.length.toNat ∧ 0 < b.length.toNat ∧ a.stop = b.offset.toNat ∧
    b.offset.toNat % AddressMapper.flashWindow = 0

instance (a b : Range) : Decidable (a.MeetsAtEdge b) := inferInstanceAs (Decidable (_ ∧ _))

/-- The stop leaves out the last word alone. -/
theorem spans_iff {r : Range} {x : UInt64} :
    r.Spans x ↔ r.Covers x.toNat ∨ x.toNat = lastOffset ∧ r.Saturates := by
  have hx := Nat.le_sub_one_of_lt x.toNat_lt
  have hoffset := r.offset_le_lastOffset
  have hlast : lastOffset + 1 = UInt64.size := by decide
  have hsize : x.toNat ≤ lastOffset := hx
  simp only [Spans, Covers, Saturates, stop]
  omega

theorem not_saturates_extendTo (a b : Range) : ¬(a.extendTo b).Saturates := by
  have hstop : max a.stop b.stop ≤ lastOffset := Nat.max_le.mpr ⟨a.stop_le_lastOffset, b.stop_le_lastOffset⟩
  have hoffset := a.offset_le_stop
  have hlast : lastOffset < UInt64.size := by decide
  have hlength : (a.extendTo b).length.toNat = max a.stop b.stop - a.offset.toNat :=
    toNat_length_between hstop
  rw [Saturates, toNat_offset_extendTo, hlength]
  omega

end Range

namespace AddressMapper

variable {mapper : AddressMapper} {size offset : Nat} {r : Range} {x : UInt64}

/-! ## Mapping a range -/

theorem offset?_physMem_eq_some_iff : physMem.offset? size x = some offset ↔
    size ≤ memoryTop ∧ x.toNat < memoryTop ∧ memoryTop - size + offset = x.toNat := by
  rw [offset?]
  split
  · rw [Option.some.injEq]
    omega
  · exact ⟨nofun, fun h => absurd h (by omega)⟩

theorem offset?_amdFlash_eq_some_iff : amdFlash.offset? size x = some offset ↔
    windowStart size + x.toNat % flashWindow = offset ∧ offset < size := by
  simp only [offset?]
  split
  · rw [Option.some.injEq]
    omega
  · exact ⟨nofun, fun h => absurd h (by omega)⟩

theorem offset?_lt (h : mapper.offset? size x = some offset) : offset < size := by
  cases mapper with
  | physMem =>
    have := offset?_physMem_eq_some_iff.mp h
    omega
  | amdFlash => exact (offset?_amdFlash_eq_some_iff.mp h).2

theorem offsetOfBytes?_eq_some_iff {length : Nat} :
    mapper.offsetOfBytes? size x length = some offset ↔
      mapper.offset? size x = some offset ∧ offset + length ≤ size := by
  rw [offsetOfBytes?, Option.filter_eq_some_iff, decide_eq_true_iff]

/-- A range is mapped if its first address is, and all of it lies within the artifact. -/
theorem resolveRange_eq_ok_iff {a : Artifact} {native : Range} :
    mapper.resolveRange a r = .ok native ↔
      mapper.offsetOfBytes? a.size r.offset r.length.toNat = some native.offset.toNat ∧
        native.length = r.length := by
  have hsize := a.size_lt
  have hlast : UInt64.size / 2 ≤ lastOffset := by decide
  rw [offsetOfBytes?_eq_some_iff, resolveRange]
  cases hoffset : mapper.offset? a.size r.offset with
  | none => exact ⟨nofun, nofun⟩
  | some offset =>
    have hlt := offset?_lt hoffset
    have htoNat : offset.toUInt64.toNat = offset :=
      UInt64.toNat_ofNat_of_lt' (Nat.lt_trans hlt (Nat.lt_trans hsize (by decide)))
    simp only [Range.stop, htoNat]
    constructor
    · intro h
      split at h
      · cases h
        exact ⟨⟨congrArg some htoNat.symm, by simp only [htoNat]; omega⟩, rfl⟩
      · cases h
    · rintro ⟨⟨hsome, hle⟩, hlength⟩
      have hnative : (⟨offset.toUInt64, r.length⟩ : Range) = native := by
        cases native
        simp only [Range.mk.injEq]
        refine ⟨UInt64.toNat_inj.mp (htoNat.trans (Option.some.inj hsome)), hlength.symm⟩
      rw [← Option.some.inj hsome] at hle
      rw [if_pos (by omega), hnative]

/-- Whether the addresses of a range are mapped to an artifact of a size. -/
def Resolves (mapper : AddressMapper) (size : Nat) (r : Range) : Prop :=
  ∃ offset, mapper.offsetOfBytes? size r.offset r.length.toNat = some offset

instance (mapper : AddressMapper) (size : Nat) (r : Range) : Decidable (mapper.Resolves size r) :=
  decidable_of_iff ((mapper.offsetOfBytes? size r.offset r.length.toNat).isSome = true)
    Option.isSome_iff_exists

theorem exists_resolveRange_iff {a : Artifact} :
    (∃ native, mapper.resolveRange a r = .ok native) ↔ mapper.Resolves a.size r := by
  simp only [resolveRange_eq_ok_iff, Resolves]
  constructor
  · rintro ⟨native, h, -⟩
    exact ⟨_, h⟩
  · rintro ⟨offset, h⟩
    have hlt := offset?_lt (offsetOfBytes?_eq_some_iff.mp h).1
    have htoNat : offset.toUInt64.toNat = offset :=
      UInt64.toNat_ofNat_of_lt' (Nat.lt_trans hlt (Nat.lt_trans a.size_lt (by decide)))
    exact ⟨⟨offset.toUInt64, r.length⟩, h.trans (congrArg some htoNat.symm), rfl⟩

/-- A range that is not mapped is told. -/
theorem unresolvable_of_resolveRange {a : Artifact} {e : ContractViolation}
    (h : mapper.resolveRange a r = .error e) :
    ¬mapper.Resolves a.size r ∧ e = .unresolvableRange mapper a.kind r a.size := by
  constructor
  · intro hresolves
    obtain ⟨native, hnative⟩ := exists_resolveRange_iff.mpr hresolves
    cases h.symm.trans hnative
  · rw [resolveRange] at h
    split at h
    · dsimp only at h
      split at h
      · cases h
      · exact (Except.error.inj h).symm
    · exact (Except.error.inj h).symm

theorem resolves_physMem_iff : physMem.Resolves size r ↔
    size ≤ memoryTop ∧ memoryTop - size ≤ r.offset.toNat ∧ r.offset.toNat < memoryTop ∧
      r.offset.toNat + r.length.toNat ≤ memoryTop := by
  simp only [Resolves, offsetOfBytes?_eq_some_iff, offset?_physMem_eq_some_iff]
  constructor
  · rintro ⟨offset, hsome, hle⟩
    omega
  · intro h
    exact ⟨r.offset.toNat - (memoryTop - size), by omega⟩

/-- A range is mapped into the flash window if it does not reach past the end of its own window. -/
theorem resolves_amdFlash_iff : amdFlash.Resolves size r ↔
    r.offset.toNat % flashWindow < size ∧
      r.offset.toNat % flashWindow + r.length.toNat ≤ min size flashWindow := by
  have hmod : r.offset.toNat % flashWindow < flashWindow := Nat.mod_lt _ (by decide)
  simp only [Resolves, offsetOfBytes?_eq_some_iff, offset?_amdFlash_eq_some_iff, windowStart]
  constructor
  · rintro ⟨offset, ⟨hoffset, hlt⟩, hle⟩
    split at hoffset <;> omega
  · rintro ⟨hlt, hend⟩
    exact ⟨_, ⟨rfl, by split <;> omega⟩, by split <;> omega⟩

theorem Resolves.add_le (h : mapper.Resolves size r) :
    r.offset.toNat + r.length.toNat ≤ UInt64.size := by
  have hoffset := r.offset.toNat_lt
  simp only [UInt64.size]
  cases mapper with
  | physMem =>
    have := resolves_physMem_iff.mp h
    simp only [memoryTop] at this
    omega
  | amdFlash =>
    -- windows are aligned, and the last word is the last of one
    have := resolves_amdFlash_iff.mp h
    simp only [flashWindow] at this
    omega

/-- The addresses of a mapped range are mapped in a row. -/
theorem offset?_of_spans (h : mapper.offsetOfBytes? size r.offset r.length.toNat = some offset)
    (hx : r.Spans x) : mapper.offset? size x = some (offset + (x.toNat - r.offset.toNat)) := by
  have hresolves : mapper.Resolves size r := ⟨offset, h⟩
  obtain ⟨hfirst, hlast⟩ := hx
  obtain ⟨hoffset, hle⟩ := offsetOfBytes?_eq_some_iff.mp h
  cases mapper with
  | physMem =>
    have hend := (resolves_physMem_iff.mp hresolves).2.2.2
    rw [offset?_physMem_eq_some_iff] at hoffset ⊢
    omega
  | amdFlash =>
    have hend := (resolves_amdFlash_iff.mp hresolves).2
    rw [offset?_amdFlash_eq_some_iff] at hoffset ⊢
    have hmod : x.toNat % flashWindow =
        r.offset.toNat % flashWindow + (x.toNat - r.offset.toNat) := by
      simp only [flashWindow] at hend ⊢
      omega
    omega

/-- Mapping a range is mapping its addresses. -/
theorem covers_native_iff {a : Artifact} {native : Range} (h : mapper.resolveRange a r = .ok native)
    (y : Nat) : native.Covers y ↔ ∃ x, r.Spans x ∧ mapper.offset? a.size x = some y := by
  obtain ⟨hnative, hlength⟩ := resolveRange_eq_ok_iff.mp h
  have hle := (offsetOfBytes?_eq_some_iff.mp hnative).2
  have hsize := a.size_lt
  have hhalf : UInt64.size / 2 < UInt64.size := by decide
  have hstop : native.stop = native.offset.toNat + r.length.toNat := by
    rw [← hlength] at hle ⊢
    exact Range.stop_eq_add (by omega)
  rw [Range.Covers, hstop]
  constructor
  · rintro ⟨hfirst, hlast⟩
    have hresolves : mapper.Resolves a.size r := ⟨_, hnative⟩
    have hadd := hresolves.add_le
    have htoNat : (r.offset.toNat + (y - native.offset.toNat)).toUInt64.toNat =
        r.offset.toNat + (y - native.offset.toNat) := UInt64.toNat_ofNat_of_lt' (by omega)
    have hspans : r.Spans (r.offset.toNat + (y - native.offset.toNat)).toUInt64 := by
      rw [Range.Spans, htoNat]
      omega
    refine ⟨_, hspans, ?_⟩
    rw [offset?_of_spans hnative hspans, htoNat]
    congr 1
    omega
  · rintro ⟨x, hspans, hx⟩
    rw [offset?_of_spans hnative hspans, Option.some.injEq] at hx
    obtain ⟨hfirst, hlast⟩ := hspans
    omega

/-! ## Joining ranges that are mapped -/

theorem Resolves.extendTo {a b : Range} (ha : mapper.Resolves size a) (hb : mapper.Resolves size b)
    (hle : a.offset.toNat ≤ b.offset.toNat) (htouch : b.offset.toNat ≤ a.stop)
    (hedge : mapper = amdFlash → ¬a.MeetsAtEdge b) : mapper.Resolves size (a.extendTo b) := by
  have hoffset := Range.toNat_offset_extendTo a b
  have hlength : (a.extendTo b).length.toNat = max a.stop b.stop - a.offset.toNat :=
    Range.toNat_length_between (Nat.max_le.mpr ⟨a.stop_le_lastOffset, b.stop_le_lastOffset⟩)
  have hastop := a.stop_le_add
  have hbstop := b.stop_le_add
  cases mapper with
  | physMem =>
    rw [resolves_physMem_iff] at ha hb ⊢
    omega
  | amdFlash =>
    have hmeet := hedge rfl
    simp only [Range.MeetsAtEdge] at hmeet
    rw [resolves_amdFlash_iff] at ha hb ⊢
    rw [hoffset, hlength]
    simp only [flashWindow] at ha hb hmeet ⊢
    omega

end AddressMapper

end MeasuredBoot
