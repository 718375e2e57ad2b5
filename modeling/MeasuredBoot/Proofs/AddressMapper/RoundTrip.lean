import MeasuredBoot.Proofs.AddressMapper.Checked

/-!
# Mapping back and forth

`AddressMapper.resolve` takes ranges of addresses to ranges of offsets, and `AddressMapper.unresolve` takes them back:

* `AddressMapper.resolve_unresolve`: ranges of offsets come back as they were, unless one is the empty range at
  the end of the artifact, which has an address past those that are mapped;
* `AddressMapper.unresolve_resolve`: ranges of addresses come back with the addresses that stand for theirs
  (`AddressMapper.normalRange`). Through the flash window an offset has many addresses, and one of them is in the
  last 16 MiB below the top of memory.
-/

namespace MeasuredBoot.AddressMapper

variable {mapper : AddressMapper} {size : Nat} {a : Artifact} {address offset : UInt64} {r region mapped : Range}

/-- The address that stands for an address. -/
def normalAddress (mapper : AddressMapper) (address : UInt64) : UInt64 :=
  match mapper with
  | .physMem => address
  | .amdFlash => 0xFF000000 ||| address % 0x1000000

/-- The range of addresses that stands for a range of addresses. -/
def normalRange (mapper : AddressMapper) (r : Range) : Range := ⟨mapper.normalAddress r.offset, r.length⟩

/-! ## Addresses and offsets -/

/-- Below the size of the window, setting the bits of its base is adding it. -/
theorem toNat_flashBase_or {n : Nat} (h : n < flashWindow) :
    (flashBase ||| n.toUInt64).toNat = 0xFF000000 + n := by
  have hword : n.toUInt64.toNat = n := UInt64.toNat_ofNat_of_lt' (Nat.lt_trans h (by decide))
  have hor : 2 ^ 24 * 255 + n = 2 ^ 24 * 255 ||| n := Nat.two_pow_add_eq_or_of_lt (show n < 2 ^ 24 from h) 255
  rw [UInt64.toNat_or, hword]
  exact hor.symm

/-- An offset has the address back, if a byte is there. -/
theorem offset?_of_address? (h : mapper.address? size offset = some address) (hlt : offset.toNat < size) :
    mapper.offset? size address = some offset.toNat := by
  cases mapper with
  | physMem =>
    rw [address?] at h
    split at h
    · have hword : (memoryTop - size + offset.toNat).toUInt64.toNat = memoryTop - size + offset.toNat :=
        UInt64.toNat_ofNat_of_lt' (Nat.lt_trans (show _ < memoryTop by omega) (by decide))
      rw [← Option.some.inj h, offset?_physMem_eq_some_iff, hword]
      omega
    · cases h
  | amdFlash =>
    have hstart := windowStart_eq size
    rw [address?] at h
    split at h
    -- The place of a byte is below the size of the window, so that no bit of it is one of the base.
    · have hplace : (flashBase ||| (offset.toNat - windowStart size).toUInt64).toNat =
          0xFF000000 + (offset.toNat - windowStart size) := toNat_flashBase_or (by omega)
      rw [← Option.some.inj h, offset?_amdFlash_eq_some_iff, hplace]
      simp only [flashWindow] at hstart ⊢
      omega
    · cases h

/-- An address that is mapped has back the one that stands for it. -/
theorem address?_of_offset? (hsize : size < UInt64.size / 2) {n : Nat} (h : mapper.offset? size address = some n) :
    mapper.address? size n.toUInt64 = some (mapper.normalAddress address) := by
  have hlt := offset?_lt h
  have hword : n.toUInt64.toNat = n := UInt64.toNat_ofNat_of_lt' (Nat.lt_trans hlt (Nat.lt_trans hsize (by decide)))
  cases mapper with
  | physMem =>
    obtain ⟨hbase, -, hplace⟩ := offset?_physMem_eq_some_iff.mp h
    rw [address?, if_pos hbase, hword, hplace]
    exact congrArg some UInt64.ofNat_toNat
  | amdFlash =>
    have hmod : (address % 0x1000000).toNat = address.toNat % flashWindow := UInt64.toNat_mod ..
    obtain ⟨rfl, -⟩ := offset?_amdFlash_eq_some_iff.mp h
    rw [address?, hword, if_pos (Nat.le_add_right ..), Nat.add_sub_cancel_left, ← hmod]
    exact congrArg (fun place => some (flashBase ||| place)) UInt64.ofNat_toNat

/-! ## Ranges -/

theorem unresolveRange_eq_ok_iff : mapper.unresolveRange a r = .ok mapped ↔
    r.offset.toNat + r.length.toNat ≤ a.size ∧ mapper.address? a.size r.offset = some mapped.offset ∧
      mapped.length = r.length := by
  have hlast : UInt64.size / 2 ≤ lastOffset := by decide
  have hsize := a.size_lt
  have hstop : r.stop ≤ a.size ↔ r.offset.toNat + r.length.toNat ≤ a.size := by
    rw [Range.stop]
    omega
  simp only [unresolveRange, hstop]
  split
  · rename_i hle
    cases mapper.address? a.size r.offset with
    | none => simp
    | some address =>
      cases mapped
      simp [hle, eq_comm]
  · rename_i hgt
    simp [hgt]

/-- The empty range at the end of an artifact. -/
def endRange (a : Artifact) : Range := ⟨a.size.toUInt64, 0⟩

/-- A range of offsets comes back as it was, unless it is the empty one at the end. -/
theorem resolveRange_of_unresolveRange (h : mapper.unresolveRange a r = .ok mapped) :
    mapper.resolveRange a mapped = .ok r ↔ r ≠ endRange a := by
  have hend : (endRange a).offset.toNat = a.size :=
    UInt64.toNat_ofNat_of_lt' (Nat.lt_trans a.size_lt (by decide))
  obtain ⟨hle, haddress, hlength⟩ := unresolveRange_eq_ok_iff.mp h
  rw [resolveRange_eq_ok_iff, offsetOfBytes?_eq_some_iff]
  constructor
  · rintro ⟨⟨hoffset, -⟩, -⟩ rfl
    have := offset?_lt hoffset
    omega
  · intro hne
    -- A range that ends within the artifact starts at a byte of it, unless it is empty and at the end.
    have hlt : r.offset.toNat < a.size := by
      refine Nat.lt_of_le_of_ne (by omega) fun hoffset => hne ?_
      have hzero : r.length = 0 := UInt64.toNat_inj.mp (show r.length.toNat = 0 by omega)
      cases r
      exact (Range.mk.injEq ..).mpr ⟨UInt64.toNat_inj.mp (hoffset.trans hend.symm), hzero⟩
    rw [hlength]
    exact ⟨⟨offset?_of_address? haddress hlt, hle⟩, rfl⟩

/-- A range of addresses that is mapped comes back as the one that stands for it, which is mapped to the same
offsets. -/
theorem unresolveRange_of_resolveRange (h : mapper.resolveRange a r = .ok region) :
    region.length = r.length ∧ region.offset.toNat + region.length.toNat ≤ a.size ∧
      mapper.unresolveRange a region = .ok (mapper.normalRange r) ∧
      mapper.resolveRange a (mapper.normalRange r) = .ok region := by
  obtain ⟨hregion, hlength⟩ := resolveRange_eq_ok_iff.mp h
  obtain ⟨hoffset, hle⟩ := offsetOfBytes?_eq_some_iff.mp hregion
  have hlt := offset?_lt hoffset
  have haddress := address?_of_offset? a.size_lt hoffset
  rw [← hlength] at hle
  have hback : mapper.unresolveRange a region = .ok (mapper.normalRange r) := by
    refine unresolveRange_eq_ok_iff.mpr ⟨hle, ?_, hlength.symm⟩
    rw [show region.offset.toNat.toUInt64 = region.offset from UInt64.ofNat_toNat] at haddress
    exact haddress
  refine ⟨hlength, hle, hback, (resolveRange_of_unresolveRange hback).mpr ?_⟩
  rintro rfl
  have hend : (endRange a).offset.toNat = a.size :=
    UInt64.toNat_ofNat_of_lt' (Nat.lt_trans a.size_lt (by decide))
  omega

/-! ## Lists of ranges -/

/-- Ranges of offsets that have addresses come back as they were, exactly if none of them is the empty range at
the end of the artifact. -/
theorem resolve_unresolve {natives addresses : Ranges} (h : mapper.unresolve a natives = .ok addresses) :
    mapper.resolve a addresses = .ok natives ↔ endRange a ∉ natives := by
  have hranges := mapM_eq_ok_iff.mp h
  rw [resolve, mapM_eq_ok_iff]
  clear h
  induction hranges with
  | nil => simp
  | cons hrange _ ih =>
    simp only [List.forall₂_cons, resolveRange_of_unresolveRange hrange, ih, List.mem_cons, not_or, ne_comm]

/-- The last byte of an image that is larger than the flash window, and the empty range at its first byte there. -/
theorem resolve_unresolve_windowEnds :
    let image := blankImage 0x1800000 (by decide)
    amdFlash.unresolve image [⟨0x17FFFFF, 1⟩, ⟨0x800000, 0⟩] = .ok [⟨0xFFFFFFFF, 1⟩, ⟨0xFF000000, 0⟩] ∧
      amdFlash.resolve image [⟨0xFFFFFFFF, 1⟩, ⟨0xFF000000, 0⟩] = .ok [⟨0x17FFFFF, 1⟩, ⟨0x800000, 0⟩] := by
  have hsize : (blankImage 0x1800000 (by decide)).size = 0x1800000 := size_blankImage
  have hranges : amdFlash.unresolve (blankImage 0x1800000 (by decide)) [⟨0x17FFFFF, 1⟩, ⟨0x800000, 0⟩] =
      .ok [⟨0xFFFFFFFF, 1⟩, ⟨0xFF000000, 0⟩] := by
    rw [unresolve, mapM_eq_ok_iff]
    simp only [List.forall₂_cons, List.Forall₂.nil, and_true, unresolveRange_eq_ok_iff, hsize]
    decide
  refine ⟨hranges, (resolve_unresolve hranges).mpr ?_⟩
  rw [endRange, hsize]
  decide

/-- The empty range at the end of an image has an address that is not mapped, or that is mapped to the start of
the flash window. -/
theorem not_resolve_unresolve :
    let small := blankImage 0x10 (by decide)
    let large := blankImage 0x1000000 (by decide)
    (physMem.unresolve small [⟨0x10, 0⟩] = .ok [⟨0x100000000, 0⟩] ∧
      physMem.resolve small [⟨0x100000000, 0⟩] ≠ .ok [⟨0x10, 0⟩]) ∧
    amdFlash.unresolve large [⟨0x1000000, 0⟩] = .ok [⟨0xFF000000, 0⟩] ∧
      amdFlash.resolve large [⟨0xFF000000, 0⟩] = .ok [⟨0, 0⟩] := by
  have hsmall : (blankImage 0x10 (by decide)).size = 0x10 := size_blankImage
  have hlarge : (blankImage 0x1000000 (by decide)).size = 0x1000000 := size_blankImage
  simp only [unresolve, resolve, ne_eq, mapM_eq_ok_iff, List.forall₂_cons, List.Forall₂.nil, and_true,
    unresolveRange_eq_ok_iff, resolveRange_eq_ok_iff, hsmall, hlarge]
  decide

/-- Ranges of addresses that are mapped lie within the artifact, come back as those that stand for them, and
these are mapped to the same offsets. No step of mapping ranges, in either direction, wraps around. -/
theorem unresolve_resolve (mapper : AddressMapper) (a : Artifact) :
    (∀ addresses natives, mapper.resolve a addresses = .ok natives →
      List.Forall₂ (fun address region : Range => region.length = address.length ∧
        region.offset.toNat + region.length.toNat ≤ a.size) addresses natives ∧
      mapper.unresolve a natives = .ok (addresses.map mapper.normalRange) ∧
      mapper.resolve a (addresses.map mapper.normalRange) = .ok natives) ∧
    ∀ rs, mapper.resolveChecked a rs = Checked.faultless (mapper.resolve a rs) ∧
      mapper.unresolveChecked a rs = Checked.faultless (mapper.unresolve a rs) := by
  refine ⟨fun addresses natives h => ?_,
    fun rs => ⟨mapper.resolveChecked_eq a rs, mapper.unresolveChecked_eq a rs⟩⟩
  have hranges := mapM_eq_ok_iff.mp h
  simp only [unresolve, resolve, mapM_eq_ok_iff]
  clear h
  induction hranges with
  | nil => exact ⟨.nil, .nil, .nil⟩
  | cons hrange _ ih =>
    obtain ⟨hlength, hle, hback, hforth⟩ := unresolveRange_of_resolveRange hrange
    obtain ⟨hwithin, hbacks, hforths⟩ := ih
    exact ⟨.cons ⟨hlength, hle⟩ hwithin, .cons hback hbacks, .cons hforth hforths⟩

/-- Addresses below the last 16 MiB of memory, and the last addresses that a word holds. -/
theorem unresolve_resolve_farAddresses :
    let image := blankImage 0x1800000 (by decide)
    amdFlash.resolve image [⟨0x1000, 0x10⟩, ⟨0xFFFFFFFFFFFFFFF0, 0x10⟩] =
        .ok [⟨0x801000, 0x10⟩, ⟨0x17FFFF0, 0x10⟩] ∧
      amdFlash.unresolve image [⟨0x801000, 0x10⟩, ⟨0x17FFFF0, 0x10⟩] =
        .ok [⟨0xFF001000, 0x10⟩, ⟨0xFFFFFFF0, 0x10⟩] := by
  have hsize : (blankImage 0x1800000 (by decide)).size = 0x1800000 := size_blankImage
  have hranges : amdFlash.resolve (blankImage 0x1800000 (by decide))
      [⟨0x1000, 0x10⟩, ⟨0xFFFFFFFFFFFFFFF0, 0x10⟩] = .ok [⟨0x801000, 0x10⟩, ⟨0x17FFFF0, 0x10⟩] := by
    simp only [resolve, mapM_eq_ok_iff, List.forall₂_cons, List.Forall₂.nil, and_true, resolveRange_eq_ok_iff,
      hsize]
    decide
  obtain ⟨-, hback, -⟩ := (unresolve_resolve amdFlash (blankImage 0x1800000 (by decide))).1 _ _ hranges
  exact ⟨hranges, hback⟩

end MeasuredBoot.AddressMapper
