import MeasuredBoot.Proofs.Bytes.Words
import MeasuredBoot.Register

/-!
# Registers in the bytes of a snapshot

The bytes of a snapshot are three slots. A register that holds no more than its width stands in the
low bytes of its slot, with zeros above:

* `Registers.layout_set`: setting a register writes to its range;
* `Registers.slice_layout`: the range of a register has the low bytes of its value.
-/

namespace MeasuredBoot

namespace Register

theorem toNat_length_range (id : Register) : id.range.length.toNat = id.width := by
  cases id <;> rfl

theorem width_le (id : Register) : id.width ≤ slotSize := by
  cases id <;> decide

end Register

namespace Registers

/-- The bytes of a slot. -/
def slotBytes (rs : Registers) (id : Register) : ByteArray :=
  Bytes.ofWord ((rs.get? id).getD 0).toNat Register.slotSize

/-- The register holds no more bytes than it is wide; an absent one holds zero. -/
def Fits (rs : Registers) (id : Register) : Prop :=
  ((rs.get? id).getD 0).toNat < 1 <<< (8 * id.width)

instance (rs : Registers) (id : Register) : Decidable (rs.Fits id) := inferInstanceAs (Decidable (_ < _))

/-- The bytes of the slots in front of that of a register. -/
def front (rs : Registers) : Register → ByteArray
  | .acmPolicyStatus => ByteArray.empty
  | .btgSacmInfo => rs.slotBytes .acmPolicyStatus
  | .txtErrorCode => rs.slotBytes .acmPolicyStatus ++ rs.slotBytes .btgSacmInfo

/-- The bytes of the slots behind that of a register. -/
def back (rs : Registers) : Register → ByteArray
  | .acmPolicyStatus => rs.slotBytes .btgSacmInfo ++ rs.slotBytes .txtErrorCode
  | .btgSacmInfo => rs.slotBytes .txtErrorCode
  | .txtErrorCode => ByteArray.empty

theorem layout_eq (rs : Registers) (id : Register) :
    rs.layout = rs.front id ++ (rs.slotBytes id ++ rs.back id) := by
  have h : rs.layout =
      rs.slotBytes .acmPolicyStatus ++ rs.slotBytes .btgSacmInfo ++ rs.slotBytes .txtErrorCode := by
    show ByteArray.empty ++ _ ++ _ ++ _ = _
    rw [ByteArray.empty_append]
    rfl
  rw [h]
  cases id with
  | acmPolicyStatus => rw [front, back, ByteArray.empty_append, ByteArray.append_assoc]
  | btgSacmInfo => rw [front, back, ByteArray.append_assoc]
  | txtErrorCode => rw [front, back, ByteArray.append_empty]

@[simp] theorem size_slotBytes (rs : Registers) (id : Register) : (rs.slotBytes id).size = 8 :=
  Bytes.size_ofWord ..

theorem size_front (rs : Registers) (id : Register) : (rs.front id).size = id.range.offset.toNat := by
  cases id with
  | acmPolicyStatus => rfl
  | btgSacmInfo => exact size_slotBytes ..
  | txtErrorCode =>
    rw [front, ByteArray.size_append, size_slotBytes, size_slotBytes]
    rfl

@[simp] theorem size_layout (rs : Registers) : rs.layout.size = 24 := by
  rw [rs.layout_eq .txtErrorCode, ByteArray.size_append, ByteArray.size_append, size_front, size_slotBytes]
  rfl

/-- A register is no wider than its slot. -/
theorem width_le_size_slotBytes (rs : Registers) (id : Register) :
    0 + id.width ≤ (rs.slotBytes id).size := by
  rw [size_slotBytes, Nat.zero_add]
  exact id.width_le

/-! ## Writing -/

theorem slotBytes_set_self {rs : Registers} {id : Register} (h : rs.Fits id) (value : UInt64) :
    (rs.set id value).slotBytes id =
      Bytes.splice (rs.slotBytes id) 0 (Bytes.ofWord value.toNat id.width) := by
  have hlt : value.toNat % (1 <<< (8 * id.width)) < UInt64.size :=
    (Nat.mod_le ..).trans_lt value.toNat_lt
  rw [slotBytes, slotBytes, Bytes.splice_ofWord id.width_le h, set, get?_put_self, Option.getD_some,
    Nat.toUInt64, UInt64.toNat_ofNat_of_lt' hlt]

theorem slotBytes_set_of_ne (rs : Registers) {id other : Register} (value : UInt64) (h : other ≠ id) :
    (rs.set id value).slotBytes other = rs.slotBytes other := by
  rw [slotBytes, slotBytes, set, get?_put_of_ne rs _ h]

theorem front_set (rs : Registers) (id : Register) (value : UInt64) :
    (rs.set id value).front id = rs.front id := by
  have hother (other : Register) (hne : other ≠ id) := slotBytes_set_of_ne rs value hne
  cases id with
  | acmPolicyStatus => rfl
  | btgSacmInfo => exact hother .acmPolicyStatus nofun
  | txtErrorCode => rw [front, front, hother .acmPolicyStatus nofun, hother .btgSacmInfo nofun]

theorem back_set (rs : Registers) (id : Register) (value : UInt64) :
    (rs.set id value).back id = rs.back id := by
  have hother (other : Register) (hne : other ≠ id) := slotBytes_set_of_ne rs value hne
  cases id with
  | acmPolicyStatus => rw [back, back, hother .btgSacmInfo nofun, hother .txtErrorCode nofun]
  | btgSacmInfo => exact hother .txtErrorCode nofun
  | txtErrorCode => rfl

/-- Setting a register writes to its range. -/
theorem layout_set {rs : Registers} {id : Register} (h : rs.Fits id) (value : UInt64) :
    (rs.set id value).layout =
      Bytes.splice rs.layout id.range.offset.toNat (Bytes.ofWord value.toNat id.width) := by
  have hslot : 0 + (Bytes.ofWord value.toNat id.width).size ≤ (rs.slotBytes id).size := by
    rw [Bytes.size_ofWord]
    exact rs.width_le_size_slotBytes id
  have hin : 0 + (Bytes.ofWord value.toNat id.width).size ≤ (rs.slotBytes id ++ rs.back id).size := by
    rw [ByteArray.size_append]
    omega
  rw [layout_eq _ id, front_set, slotBytes_set_self h, back_set, ← Bytes.splice_append_left hslot,
    ← Bytes.splice_append_right hin, ← layout_eq, size_front, Nat.add_zero]

/-! ## Reading -/

/-- The range of a register has the low bytes of its value; an absent register counts as zero. -/
theorem slice_layout (rs : Registers) (id : Register) :
    Bytes.slice rs.layout id.range.offset.toNat id.width =
      Bytes.ofWord ((rs.get? id).getD 0).toNat id.width := by
  have hslot := rs.width_le_size_slotBytes id
  have hin : 0 + id.width ≤ (rs.slotBytes id ++ rs.back id).size := by
    rw [ByteArray.size_append]
    omega
  rw [← Nat.add_zero id.range.offset.toNat, ← rs.size_front id, rs.layout_eq id,
    Bytes.slice_append_right hin, Bytes.slice_append_left hslot, slotBytes, Bytes.slice_ofWord id.width_le]

end Registers

end MeasuredBoot
