/-!
# Binomial coefficients within 128 bits

`binomial? n k` computes the number of ways to choose `k` of `n` things by a running product, in
which every division is exact. It gives up when a product does not fit 128 bits.
-/

namespace MeasuredBoot

/-- Products have to stay below this bound. -/
def wideBound : Nat := UInt64.size * UInt64.size

/-- Goes on with a running product over `steps` further factors, the next of which is `n - i`. -/
def binomialFrom (n i product : Nat) : (steps : Nat) → Option Nat
  | 0 => some product
  | steps + 1 =>
    let next := product * (n - i)
    if next < wideBound then binomialFrom n (i + 1) (next / (i + 1)) steps else none

/-- The number of subsets of `k` elements of a set of `n`, unless a product is too large. -/
def binomial? (n k : Nat) : Option Nat :=
  if n < k then some 0 else binomialFrom n 0 1 (min k (n - k))

/-- The bound that the number of combinations of one distance has to stay below. -/
def idBound : Nat := UInt64.size / 2 - 1

/-- The number of combinations of `distance` bits out of `bits`, unless their ids do not fit. -/
def shellSize? (bits distance : Nat) : Option Nat :=
  (binomial? bits distance).filter (· < idBound)

end MeasuredBoot
