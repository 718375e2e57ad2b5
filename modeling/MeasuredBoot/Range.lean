import MeasuredBoot.Text.Hex

/-!
# Ranges of offsets

A `Range` is an offset and a length, both 64-bit words. It stands for the offsets from `offset` up
to, and without, `stop`: the sum of the two, or the last 64-bit word where the sum is larger.
`Range.Covers` and `Ranges.Covers` say which offsets a range, or a list of them, stands for.

* `Range.exclude`: what is left of a range after a list of cuts;
* `Ranges.sortAndMerge`: the same offsets as an ascending list of ranges that do not touch;
* `Ranges.exclude`: what is left of a list of ranges after a list of cuts.
-/

namespace MeasuredBoot

/-- The largest 64-bit word. -/
def lastOffset : Nat := UInt64.size - 1

/-- A window of `length` bytes at `offset`. -/
structure Range where
  offset : UInt64
  length : UInt64
  deriving DecidableEq, Repr, Inhabited

/-- A list of ranges over one address space. -/
abbrev Ranges := List Range

namespace Range

/-- The first offset past the range, held at the last 64-bit word. -/
def stop (r : Range) : Nat := min (r.offset.toNat + r.length.toNat) lastOffset

/-- The offsets that a range stands for. -/
def Covers (r : Range) (x : Nat) : Prop := r.offset.toNat ≤ x ∧ x < r.stop

instance (r : Range) (x : Nat) : Decidable (r.Covers x) :=
  inferInstanceAs (Decidable (_ ∧ _))

/-- The range from `first` up to, and without, `stop`. -/
def between (first stop : Nat) : Range := ⟨first.toUInt64, (stop - first).toUInt64⟩

/-- Whether a range has no length. -/
def isEmpty (r : Range) : Bool := r.length == 0

/-- Whether each range starts before the other one stops. -/
def overlaps (a b : Range) : Bool := a.offset.toNat < b.stop && b.offset.toNat < a.stop

/-- Whether `b` neither starts before `a` nor stops after it. -/
def contains (a b : Range) : Bool := a.offset ≤ b.offset && b.stop ≤ a.stop

/-- Ranges are ordered by offset, then by length. -/
instance : Ord Range where
  compare a b := (compare a.offset b.offset).then (compare a.length b.length)

/-- Whether `a` comes before `b` or equals it. -/
def le (a b : Range) : Bool := (compare a b).isLE

/-- What is left of `r` without the offsets of `cut`: at most a part below and a part above. -/
def subtract (r cut : Range) : Ranges :=
  if r.overlaps cut then
    (if r.offset < cut.offset then [between r.offset.toNat cut.offset.toNat] else []) ++
    (if cut.stop < r.stop then [between cut.stop r.stop] else [])
  else [r]

/-- What is left of `r` without the offsets of all `cuts`, in ascending order; an empty range
leaves nothing. -/
def exclude (r : Range) (cuts : Ranges) : Ranges :=
  cuts.foldl (fun left cut => left.flatMap (·.subtract cut)) (if r.isEmpty then [] else [r])

/-- The range that starts where `a` does and stops where the later of the two stops. -/
def extendTo (a b : Range) : Range := between a.offset.toNat (max a.stop b.stop)

/-- First offset and stop, in upper-case hexadecimal. -/
def text (r : Range) : String := s!"{Hex.upper r.offset.toNat}:{Hex.upper r.stop}"

end Range

namespace Ranges

/-- The offsets that some range of the list stands for. -/
def Covers (rs : Ranges) (x : Nat) : Prop := ∃ r ∈ rs, r.Covers x

instance (rs : Ranges) (x : Nat) : Decidable (Ranges.Covers rs x) :=
  inferInstanceAs (Decidable (∃ r ∈ rs, r.Covers x))

/-- The list in ascending order. -/
def sort (rs : Ranges) : Ranges := rs.mergeSort Range.le

/-- Joins each range of an ascending list to `current` as long as it starts no later than
`current` stops. -/
def mergeOnto (current : Range) : Ranges → Ranges
  | [] => [current]
  | r :: rest =>
    if r.offset.toNat ≤ current.stop then mergeOnto (current.extendTo r) rest
    else current :: mergeOnto r rest

/-- The list in ascending order, with ranges that overlap or touch joined into one. A list of
fewer than two ranges is kept as it is. -/
def sortAndMerge (rs : Ranges) : Ranges :=
  if rs.length < 2 then rs
  else match sort rs with
    | [] => []
    | r :: rest => mergeOnto r rest

/-- What is left of each range without the offsets of all cuts, with no empty range kept. -/
def exclude (rs cuts : Ranges) : Ranges :=
  (rs.flatMap (·.exclude cuts)).filter fun r => !r.isEmpty

/-- The sum of the lengths, as a 64-bit word. -/
def totalLength (rs : Ranges) : UInt64 := (rs.map (·.length)).foldl (· + ·) 0

/-- The ranges between brackets, separated by commas. -/
def text (rs : Ranges) : String := "[" ++ String.intercalate "," (rs.map Range.text) ++ "]"

end Ranges

end MeasuredBoot
