import MeasuredBoot.Bytes
import MeasuredBoot.Range

/-!
# Hardware status registers

A `Registers` snapshot holds the values of some status registers. As an artifact it is three slots
of eight bytes, one for each `Register`, with the value in little-endian form (`Registers.layout`),
so that a measured register is a range of bytes like any other measured data (`Register.range`).
-/

namespace MeasuredBoot

/-- The registers that a snapshot can hold. -/
inductive Register where
  | acmPolicyStatus
  | btgSacmInfo
  | txtErrorCode
  deriving DecidableEq, Repr

namespace Register

/-- The registers in the order of their slots. -/
def all : List Register := [.acmPolicyStatus, .btgSacmInfo, .txtErrorCode]

/-- The name of a register. -/
def name : Register → String
  | .acmPolicyStatus => "ACM_POLICY_STATUS"
  | .btgSacmInfo => "BTG_SACM_INFO"
  | .txtErrorCode => "TXT_ERROR_CODE"

/-- The register with exactly this name. -/
def ofName? (name : String) : Option Register := all.find? (·.name == name)

/-- Reads a name in any case of its ASCII letters. -/
def parse? (text : String) : Option Register := ofName? (text.map Char.toUpper)

/-- The text for a name that `parse?` refuses. -/
def unknownMessage (text : String) : String := s!"unknown register: {text}"

/-- The number of meaningful bytes of a register. -/
def width : Register → Nat
  | .acmPolicyStatus | .btgSacmInfo => 8
  | .txtErrorCode => 4

/-- The number of the register's slot. -/
def slot : Register → Nat
  | .acmPolicyStatus => 0
  | .btgSacmInfo => 1
  | .txtErrorCode => 2

/-- The size of a slot in bytes. -/
def slotSize : Nat := 8

/-- Where the meaningful bytes of a register stand in a snapshot. -/
def range (id : Register) : Range := ⟨(id.slot * slotSize).toUInt64, id.width.toUInt64⟩

/-- The value of which `bytes` are the low bytes; bytes beyond the width are ignored and missing
ones count as zero. -/
def decode (id : Register) (bytes : ByteArray) : Nat := Bytes.word bytes 0 id.width

end Register

/-- The values of the registers that are present. -/
structure Registers where
  acmPolicyStatus : Option UInt64 := none
  btgSacmInfo : Option UInt64 := none
  txtErrorCode : Option UInt64 := none
  deriving DecidableEq, Repr, Inhabited

namespace Registers

/-- The value of a register, if it is present. -/
def get? (rs : Registers) : Register → Option UInt64
  | .acmPolicyStatus => rs.acmPolicyStatus
  | .btgSacmInfo => rs.btgSacmInfo
  | .txtErrorCode => rs.txtErrorCode

/-- The snapshot with a register present at `value`, taken as it is. -/
def put (rs : Registers) (id : Register) (value : UInt64) : Registers :=
  match id with
  | .acmPolicyStatus => { rs with acmPolicyStatus := some value }
  | .btgSacmInfo => { rs with btgSacmInfo := some value }
  | .txtErrorCode => { rs with txtErrorCode := some value }

/-- The snapshot with a register present at the low bytes of `value`, as many as it is wide. -/
def set (rs : Registers) (id : Register) (value : UInt64) : Registers :=
  rs.put id (value.toNat % (1 <<< (8 * id.width))).toUInt64

/-- The registers that are present with their values, in the order of their slots. -/
def toList (rs : Registers) : List (Register × UInt64) :=
  Register.all.filterMap fun id => (rs.get? id).map (id, ·)

/-- The bytes of the snapshot; an absent register reads as zero. -/
def layout (rs : Registers) : ByteArray :=
  Register.all.foldl
    (fun bytes id => bytes ++ Bytes.ofWord ((rs.get? id).getD 0).toNat Register.slotSize)
    ByteArray.empty

@[simp] theorem get?_put_self (rs : Registers) (id : Register) (value : UInt64) :
    (rs.put id value).get? id = some value := by
  cases id <;> rfl

theorem get?_put_of_ne (rs : Registers) {id other : Register} (value : UInt64) (h : other ≠ id) :
    (rs.put id value).get? other = rs.get? other := by
  cases id <;> cases other <;> first | rfl | exact absurd rfl h

end Registers

end MeasuredBoot
