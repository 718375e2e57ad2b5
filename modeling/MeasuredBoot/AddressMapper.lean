import MeasuredBoot.Artifact

/-!
# Mapping addresses to offsets and back

`AddressMapper.offset?` gives the offset of an address within an artifact of a given size and
`AddressMapper.address?` an address of an offset. `resolve` and `unresolve` do so for ranges, which
have to lie within the artifact as a whole.
-/

namespace MeasuredBoot.AddressMapper

/-- The end of the physical memory that firmware is mapped below. -/
def memoryTop : Nat := 0x100000000

/-- The size of the flash window. -/
def flashWindow : Nat := 0x1000000

/-- Where the flash window starts in physical memory. -/
def flashBase : UInt64 := 0xFF000000

/-- The offset at which the flash window of an artifact starts; an artifact smaller than the window
starts with it. -/
def windowStart (size : Nat) : Nat := if size < flashWindow then 0 else size - flashWindow

/-- The offset of an address within an artifact of `size` bytes. -/
def offset? (mapper : AddressMapper) (size : Nat) (address : UInt64) : Option Nat :=
  match mapper with
  | .physMem =>
    if size ≤ memoryTop ∧ memoryTop - size ≤ address.toNat ∧ address.toNat < memoryTop then
      some (address.toNat - (memoryTop - size))
    else none
  | .amdFlash =>
    let offset := windowStart size + address.toNat % flashWindow
    if offset < size then some offset else none

/-- The offset of an address from which `length` bytes lie within an artifact of `size` bytes. -/
def offsetOfBytes? (mapper : AddressMapper) (size : Nat) (address : UInt64) (length : Nat) :
    Option Nat :=
  (mapper.offset? size address).filter fun offset => offset + length ≤ size

/-- An address of an offset within an artifact of `size` bytes. -/
def address? (mapper : AddressMapper) (size : Nat) (offset : UInt64) : Option UInt64 :=
  match mapper with
  | .physMem =>
    if size ≤ memoryTop then some (memoryTop - size + offset.toNat).toUInt64 else none
  | .amdFlash =>
    if windowStart size ≤ offset.toNat then
      some (flashBase ||| (offset.toNat - windowStart size).toUInt64)
    else none

/-- The range of offsets of a range of addresses, if all of it lies within the artifact. -/
def resolveRange (mapper : AddressMapper) (a : Artifact) (r : Range) :
    Except ContractViolation Range :=
  match mapper.offset? a.size r.offset with
  | some offset =>
    let native : Range := ⟨offset.toUInt64, r.length⟩
    if native.stop ≤ a.size then .ok native else .error (.unresolvableRange mapper a.kind r a.size)
  | none => .error (.unresolvableRange mapper a.kind r a.size)

/-- A range of addresses of a range of offsets, all of which has to lie within the artifact. -/
def unresolveRange (mapper : AddressMapper) (a : Artifact) (r : Range) :
    Except ContractViolation Range :=
  if r.stop ≤ a.size then
    match mapper.address? a.size r.offset with
    | some address => .ok ⟨address, r.length⟩
    | none => .error (.unresolvableRange mapper a.kind r a.size)
  else .error (.unresolvableRange mapper a.kind r a.size)

/-- The offsets of ranges of addresses, or the first range that has none. -/
def resolve (mapper : AddressMapper) (a : Artifact) (rs : Ranges) :
    Except ContractViolation Ranges := rs.mapM (mapper.resolveRange a)

/-- Addresses of ranges of offsets, or the first range that has none. -/
def unresolve (mapper : AddressMapper) (a : Artifact) (rs : Ranges) :
    Except ContractViolation Ranges := rs.mapM (mapper.unresolveRange a)

end MeasuredBoot.AddressMapper
