import MeasuredBoot.Proofs.AddressMapper.Translation
import MeasuredBoot.Proofs.Checked

/-!
# Mapping addresses in 64-bit words

`AddressMapper.offset?` and `AddressMapper.address?` count in natural numbers. Here the same is computed in words
(`offsetChecked`, `addressChecked`), with each sum checked. An artifact is small enough that none wraps around,
whatever the address and the length are:

* `offsetChecked_eq`, `offsetOfBytesChecked_eq`, `addressChecked_eq`: addresses and offsets;
* `resolveChecked_eq`, `unresolveChecked_eq`: lists of ranges.
-/

namespace MeasuredBoot.AddressMapper

variable {ε : Type} {mapper : AddressMapper} {size : Nat} {address offset : UInt64}

/-! ## Addresses and offsets -/

/-- The offset at which the flash window starts, as a word. -/
def windowStartWord (size : UInt64) : UInt64 := (Checked.minus? size flashWindow.toUInt64).getD 0

/-- The offset of an address, in words. -/
def offsetChecked (mapper : AddressMapper) (size address : UInt64) : Checked ε (Option UInt64) :=
  match mapper with
  | .physMem => .ok do
    let base ← Checked.minus? memoryTop.toUInt64 size
    let offset ← Checked.minus? address base
    if offset < size then some offset else none
  | .amdFlash => do
    let offset ← Checked.add (windowStartWord size) (address &&& 0xFFFFFF)
    return if offset < size then some offset else none

/-- The offset of an address from which `length` bytes lie within the artifact, in words. -/
def offsetOfBytesChecked (mapper : AddressMapper) (size address length : UInt64) :
    Checked ε (Option UInt64) := do
  match ← mapper.offsetChecked size address with
  | none => return none
  | some offset =>
    let stop ← Checked.add offset length
    return if stop ≤ size then some offset else none

/-- An address of an offset, in words. -/
def addressChecked (mapper : AddressMapper) (size offset : UInt64) : Checked ε (Option UInt64) :=
  match mapper with
  | .physMem =>
    match Checked.minus? memoryTop.toUInt64 size with
    | none => return none
    | some base => return some (← Checked.add base offset)
  | .amdFlash => return (Checked.minus? offset (windowStartWord size)).map (flashBase ||| ·)

theorem windowStart_eq (size : Nat) : windowStart size = size - flashWindow := by
  rw [windowStart]
  split <;> omega

theorem windowStartWord_eq (h : size < UInt64.size) :
    windowStartWord size.toUInt64 = (windowStart size).toUInt64 := by
  have hwindow : flashWindow.toUInt64.toNat = flashWindow := by decide
  rw [windowStartWord, Checked.minus?_getD, UInt64.toNat_ofNat_of_lt' h, hwindow, windowStart_eq]

/-- The low bits of an address are its place in the flash window. -/
theorem and_windowMask (address : UInt64) : address &&& 0xFFFFFF = (address.toNat % flashWindow).toUInt64 := by
  have hlt : address.toNat % flashWindow < UInt64.size := (Nat.mod_lt _ (by decide)).trans (by decide)
  have hmask : address.toNat &&& (2 ^ 24 - 1) = address.toNat % 2 ^ 24 := Nat.and_two_pow_sub_one_eq_mod _ 24
  refine UInt64.toNat_inj.mp ?_
  rw [UInt64.toNat_and, UInt64.toNat_ofNat_of_lt' hlt]
  exact hmask

/-- The offset of an address is computed without a fault. -/
theorem offsetChecked_eq (h : size < UInt64.size / 2) (address : UInt64) :
    (mapper.offsetChecked size.toUInt64 address : Checked ε _) =
      .ok ((mapper.offset? size address).map Nat.toUInt64) := by
  have hhalf : UInt64.size / 2 + UInt64.size / 2 = UInt64.size := by decide
  have hsize : size.toUInt64.toNat = size := UInt64.toNat_ofNat_of_lt' (by omega)
  cases mapper with
  | physMem =>
    have htop : memoryTop.toUInt64.toNat = memoryTop := by decide
    have haddress := address.toNat_lt
    rw [offsetChecked, offset?, Checked.minus?_eq, hsize, htop]
    by_cases hbase : size ≤ memoryTop
    · have hbaseWord : (memoryTop - size).toUInt64.toNat = memoryTop - size :=
        UInt64.toNat_ofNat_of_lt' (by simp only [memoryTop, UInt64.size]; omega)
      simp only [hbase, if_true, true_and, Option.bind_eq_bind, Option.bind_some, Checked.minus?_eq, hbaseWord]
      by_cases hfirst : memoryTop - size ≤ address.toNat
      · have hlast : address.toNat - (memoryTop - size) < size ↔ address.toNat < memoryTop := by omega
        simp only [hfirst, if_true, true_and, Option.bind_some, ← hlast]
        rw [Checked.ite_lt_toUInt64 (by simp only [UInt64.size]; omega) (by omega)]
      · simp [hfirst]
    · simp [hbase]
  | amdFlash =>
    have hmod : address.toNat % flashWindow < flashWindow := Nat.mod_lt _ (by decide)
    have hwindow : flashWindow < UInt64.size / 2 := by decide
    have hstart := windowStart_eq size
    rw [offsetChecked, offset?, windowStartWord_eq (by omega), and_windowMask,
      Checked.add_toUInt64 (by omega), ok_bind, Checked.ite_lt_toUInt64 (by omega) (by omega)]
    rfl

theorem offsetOfBytesChecked_eq (h : size < UInt64.size / 2) (address : UInt64) {length : Nat}
    (hlength : length < UInt64.size / 2) :
    (mapper.offsetOfBytesChecked size.toUInt64 address length.toUInt64 : Checked ε _) =
      .ok ((mapper.offsetOfBytes? size address length).map Nat.toUInt64) := by
  have hhalf : UInt64.size / 2 + UInt64.size / 2 = UInt64.size := by decide
  rw [offsetOfBytesChecked, offsetChecked_eq h, ok_bind, offsetOfBytes?]
  cases hoffset : mapper.offset? size address with
  | none => rfl
  | some offset =>
    have hlt := offset?_lt hoffset
    have hle : (offset + length).toUInt64 ≤ size.toUInt64 ↔ offset + length ≤ size :=
      Checked.toUInt64_le_iff (by omega) (by omega)
    simp only [Option.map_some, Checked.add_toUInt64 (show offset + length < UInt64.size by omega), ok_bind, hle,
      Option.filter_some, decide_eq_true_iff]
    split <;> rfl

/-- The address of an offset that the artifact reaches up to is computed without a fault. -/
theorem addressChecked_eq (h : size < UInt64.size / 2) (hoffset : offset.toNat ≤ size) :
    (mapper.addressChecked size.toUInt64 offset : Checked ε _) = .ok (mapper.address? size offset) := by
  have hhalf : UInt64.size / 2 + UInt64.size / 2 = UInt64.size := by decide
  have hsize : size.toUInt64.toNat = size := UInt64.toNat_ofNat_of_lt' (by omega)
  cases mapper with
  | physMem =>
    have htop : memoryTop.toUInt64.toNat = memoryTop := by decide
    have htopLt : memoryTop < UInt64.size := by decide
    rw [addressChecked, address?, Checked.minus?_eq, hsize, htop]
    by_cases hbase : size ≤ memoryTop
    · have hsame : offset.toNat.toUInt64 = offset := UInt64.ofNat_toNat
      have hsum : (Checked.add _ offset.toNat.toUInt64 : Checked ε UInt64) = _ :=
        Checked.add_toUInt64 (show memoryTop - size + offset.toNat < UInt64.size by omega)
      rw [hsame] at hsum
      simp only [hbase, if_true, hsum, ok_bind]
      rfl
    · simp only [hbase, if_false]
      rfl
  | amdFlash =>
    have hstart := windowStart_eq size
    have hstartWord : (windowStart size).toUInt64.toNat = windowStart size :=
      UInt64.toNat_ofNat_of_lt' (by omega)
    rw [addressChecked, address?, windowStartWord_eq (by omega), Checked.minus?_eq, hstartWord]
    split <;> rfl

/-! ## Ranges -/

/-- The range of offsets of a range of addresses, in words. -/
def resolveRangeChecked (mapper : AddressMapper) (a : Artifact) (r : Range) : Checked ContractViolation Range := do
  match ← mapper.offsetChecked a.size.toUInt64 r.offset with
  | none => throw (.reported (.unresolvableRange mapper a.kind r a.size))
  | some offset =>
    let native : Range := ⟨offset, r.length⟩
    if native.stop ≤ a.size then return native
    else throw (.reported (.unresolvableRange mapper a.kind r a.size))

/-- A range of addresses of a range of offsets, in words. -/
def unresolveRangeChecked (mapper : AddressMapper) (a : Artifact) (r : Range) :
    Checked ContractViolation Range := do
  if a.size < r.stop then throw (.reported (.unresolvableRange mapper a.kind r a.size))
  match ← mapper.addressChecked a.size.toUInt64 r.offset with
  | none => throw (.reported (.unresolvableRange mapper a.kind r a.size))
  | some address => return ⟨address, r.length⟩

/-- The offsets of ranges of addresses, in words. -/
def resolveChecked (mapper : AddressMapper) (a : Artifact) (rs : Ranges) : Checked ContractViolation Ranges :=
  rs.mapM (mapper.resolveRangeChecked a)

/-- Addresses of ranges of offsets, in words. -/
def unresolveChecked (mapper : AddressMapper) (a : Artifact) (rs : Ranges) : Checked ContractViolation Ranges :=
  rs.mapM (mapper.unresolveRangeChecked a)

variable (mapper) (a : Artifact)

theorem resolveRangeChecked_eq (r : Range) :
    mapper.resolveRangeChecked a r = Checked.faultless (mapper.resolveRange a r) := by
  rw [resolveRangeChecked, offsetChecked_eq a.size_lt, ok_bind, resolveRange]
  cases mapper.offset? a.size r.offset with
  | none => rfl
  | some offset =>
    simp only [Option.map_some]
    split <;> rfl

theorem unresolveRangeChecked_eq (r : Range) :
    mapper.unresolveRangeChecked a r = Checked.faultless (mapper.unresolveRange a r) := by
  have hlast : UInt64.size / 2 ≤ lastOffset := by decide
  have hsize := a.size_lt
  rw [unresolveRangeChecked, unresolveRange]
  by_cases hstop : r.stop ≤ a.size
  · have hoffset : r.offset.toNat ≤ a.size := r.offset_le_stop.trans hstop
    simp only [hstop, if_true, Nat.not_lt.mpr hstop, if_false, addressChecked_eq hsize hoffset, ok_bind]
    cases mapper.address? a.size r.offset <;> rfl
  · simp only [hstop, if_false, Nat.not_le.mp hstop, if_true]
    rfl

/-- Ranges of addresses are mapped without a fault, whatever their addresses and lengths are. -/
theorem resolveChecked_eq (rs : Ranges) :
    mapper.resolveChecked a rs = Checked.faultless (mapper.resolve a rs) :=
  Checked.mapM_eq_faultless (mapper.resolveRangeChecked_eq a) rs

/-- Ranges of offsets are mapped without a fault, whatever their offsets and lengths are. -/
theorem unresolveChecked_eq (rs : Ranges) :
    mapper.unresolveChecked a rs = Checked.faultless (mapper.unresolve a rs) :=
  Checked.mapM_eq_faultless (mapper.unresolveRangeChecked_eq a) rs

end MeasuredBoot.AddressMapper
