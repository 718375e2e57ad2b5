import MeasuredBoot.Combination.Binomial

/-!
# Combinations of bits

A `Combination` is a set of bit positions, given in ascending order. The combinations of one size
are numbered in colexicographic order, which compares the largest positions first:
`Combination.rank?` gives the number of a combination and `Combination.unrank` the combination of a
number.
-/

namespace MeasuredBoot

/-- Bit positions in ascending order. -/
abbrev Combination := List Nat

namespace Combination

/-- Drops neighbours that are equal. -/
def dropRepeated : List Nat → List Nat
  | [] => []
  | [i] => [i]
  | i :: j :: rest => if i = j then dropRepeated (j :: rest) else i :: dropRepeated (j :: rest)

/-- The combination of the positions in a list, which can be in any order and repeated. -/
def ofList (positions : List Nat) : Combination :=
  dropRepeated (positions.mergeSort (· ≤ ·))

/-- Adds the numbers of combinations that precede because of the positions in a list, the first of
which is the `i`-th one of the combination. -/
def rankFrom (i sum : Nat) : List Nat → Option Nat
  | [] => some sum
  | c :: rest => do
    let next := sum + (← binomial? c (i + 1))
    if next < wideBound then rankFrom (i + 1) next rest else none

/-- The number of a combination among those of its size, unless it does not fit 128 bits. -/
def rank? (c : Combination) : Option Nat := rankFrom 0 0 c

/-- Whether more than `id` combinations of `i` positions lie below position `c`. -/
def exceeds (id i c : Nat) : Bool :=
  match binomial? c i with
  | some count => id < count
  | none => true

/-- The largest position from `c` downwards below which at most `id` combinations of `i` positions
lie. -/
def topPosition (id i : Nat) : (c : Nat) → Nat
  | 0 => 0
  | c + 1 => if i ≤ c + 1 && exceeds id i (c + 1) then topPosition id i c else c + 1

/-- Puts the positions of a combination with number `id` of `size` positions below `upper` in front
of `above`. -/
def unrankOnto (above : List Nat) (id upper : Nat) : (size : Nat) → Combination
  | 0 => above
  | i + 1 =>
    let c := topPosition id (i + 1) (max (upper - 1) i)
    unrankOnto (c :: above) (id - (binomial? c (i + 1)).getD 0) c i

/-- The combination with number `id` among those of `distance` positions below `bits`. -/
def unrank (id distance bits : Nat) : Combination := unrankOnto [] id bits distance

/-- The text of a combination. -/
def text (c : Combination) : String :=
  let positions := String.intercalate "," (c.map toString)
  s!"\x7b{positions}\x7d"

end Combination

end MeasuredBoot
