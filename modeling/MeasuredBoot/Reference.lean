import MeasuredBoot.AddressMapper

/-!
# References

A `Reference` describes bytes by where they are: ranges in an address space. `References` is a list
of them.

* `Reference.nativeRanges`, `Reference.bytes`: the offsets of a reference, in ascending order, and
  the bytes at them;
* `References.sortAndMerge`: the same offsets with one reference for each space, in order;
* `References.exclude`: what is left without the offsets of other references to the same space.
-/

namespace MeasuredBoot

/-- Ranges in an address space. -/
structure Reference extends AddressSpace where
  ranges : Ranges
  deriving DecidableEq, Repr

/-- A list of references. -/
abbrev References := List Reference

namespace Reference

/-- The space that a reference points into. -/
def space (r : Reference) : AddressSpace := r.toAddressSpace

/-- The ranges of a reference as offsets of its artifact, in ascending order. -/
def nativeRanges (r : Reference) (as : Artifacts) : Except ContractViolation Ranges := do
  let a ← as.get r.artifact
  match r.mapper with
  | some mapper => return Ranges.sort (← mapper.resolve a r.ranges)
  | none => return Ranges.sort r.ranges

/-- The same reference by offsets. -/
def resolve (r : Reference) (as : Artifacts) : Except ContractViolation Reference := do
  return ⟨⟨r.artifact, none⟩, ← r.nativeRanges as⟩

/-- The bytes at the offsets of a reference, in ascending order of the ranges. -/
def bytes (r : Reference) (as : Artifacts) : Except ContractViolation ByteArray := do
  let a ← as.get r.artifact
  (← r.nativeRanges as).foldlM (fun out range => return out ++ (← a.readRange range))
    ByteArray.empty

/-- The names of the space and the ranges. -/
def text (r : Reference) : String := r.space.text ++ Ranges.text r.ranges

end Reference

namespace References

/-- All ranges of the references into one space. -/
def rangesIn (rs : References) (space : AddressSpace) : Ranges :=
  (rs.filter (·.space = space)).flatMap (·.ranges)

/-- The offsets that the references into one space stand for. -/
def Covers (rs : References) (space : AddressSpace) (x : Nat) : Prop :=
  ∃ r ∈ rs, r.space = space ∧ Ranges.Covers r.ranges x

/-- The reference to ranges of a space, unless there are none. -/
def within? (space : AddressSpace) (ranges : Ranges) : Option Reference :=
  if ranges.isEmpty then none else some ⟨space, ranges⟩

/-- One reference for each space that has ranges, in the order of the spaces, with its ranges
ascending and joined where they overlap or touch. -/
def sortAndMerge (rs : References) : References :=
  AddressSpace.all.filterMap fun space => within? space (Ranges.sortAndMerge (rs.rangesIn space))

/-- What is left of each reference without the offsets of `other` in the same space; a reference of
which nothing is left is dropped. -/
def exclude (rs other : References) : References :=
  rs.filterMap fun r => within? r.space (Ranges.exclude r.ranges (other.rangesIn r.space))

/-- The bytes of all references, one after the other. -/
def bytes (rs : References) (as : Artifacts) : Except ContractViolation ByteArray :=
  rs.foldlM (fun out r => return out ++ (← r.bytes as)) ByteArray.empty

/-- The same references by offsets. -/
def resolve (rs : References) (as : Artifacts) : Except ContractViolation References :=
  rs.mapM (·.resolve as)

/-- The references, separated by commas. -/
def text (rs : References) : String := String.intercalate ", " (rs.map Reference.text)

end References

end MeasuredBoot
