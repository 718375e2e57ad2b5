import MeasuredBoot.Bytes.Flip
import MeasuredBoot.Combination

/-!
# Walking through combinations

A `Cursor` stands at a combination and moves to the next one in colexicographic order
(`Cursor.advance?`), without looking at its number.
-/

namespace MeasuredBoot

/-- A position among the combinations of some size. -/
structure Cursor where
  /-- Positions lie below this number. -/
  bits : Nat
  current : Combination
  deriving DecidableEq, Repr

namespace Cursor

/-- Stands at the first combination: the lowest positions. -/
def first (distance bits : Nat) : Cursor := ⟨bits, List.range distance⟩

/-- Stands at the combination of the same size with number `id`. -/
def seek (cursor : Cursor) (id : Nat) : Cursor :=
  { cursor with current := Combination.unrank id cursor.current.length cursor.bits }

/-- The combination after one that ends with the given positions, above `i` lowest ones: the first
position that can move up does so, and those below it become the lowest ones again. -/
def nextFrom? (bits i : Nat) : List Nat → Option Combination
  | [] => none
  | c :: rest =>
    if c + 1 < rest.head?.getD bits then some (List.range i ++ (c + 1) :: rest)
    else nextFrom? bits (i + 1) rest

/-- Moves to the next combination, if there is one. -/
def advance? (cursor : Cursor) : Option Cursor :=
  (nextFrom? cursor.bits 0 cursor.current).map fun next => { cursor with current := next }

/-- Moves to the next combination, or stays at the last one. -/
def advance (cursor : Cursor) : Cursor := cursor.advance?.getD cursor

/-- A byte string with the bits of the combination flipped. -/
def flip (cursor : Cursor) (data : ByteArray) : ByteArray := Bytes.flipBits cursor.current data

end Cursor

end MeasuredBoot
