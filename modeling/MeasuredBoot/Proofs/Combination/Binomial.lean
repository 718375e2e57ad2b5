import MeasuredBoot.Combination.Binomial
import Mathlib.Data.Nat.Choose.Basic

/-!
# The running product of a binomial coefficient

`binomial? n k` gives the binomial coefficient or nothing, and nothing only if one of the products on
the way is too large (`ProductsFit`):

* `binomial?_eq_some_iff`: the result is exact;
* `ProductsFit.mono`: a coefficient `i` of `m` has products that fit if one further down and to the
  right in Pascal's triangle, in both directions, has;
* `productsFit_iff`: the last product, which is the coefficient before it is divided for the last time,
  is the largest one, so that a coefficient of at most 64 bits never has a product that is too large
  (`ProductsFit.of_choose_lt`);
* `binomial?_exact`: for which coefficients there is a result.
-/

namespace MeasuredBoot

/-- All products that come up in the binomial coefficient `k` of `n` stay within 128 bits. -/
def ProductsFit (n k : Nat) : Prop := ∀ j < min k (n - k), n.choose j * (n - j) < wideBound

/-- One step of the running product is exact. -/
theorem choose_mul_div (n i : Nat) : n.choose i * (n - i) / (i + 1) = n.choose (i + 1) := by
  rw [← Nat.choose_succ_right_eq]
  exact Nat.mul_div_cancel _ (Nat.succ_pos i)

/-- The running product takes the shorter way, by symmetry. -/
theorem choose_min {n k : Nat} (h : k ≤ n) : n.choose (min k (n - k)) = n.choose k := by
  rcases Nat.le_total k (n - k) with hk | hk
  · rw [Nat.min_eq_left hk]
  · rw [Nat.min_eq_right hk, Nat.choose_symm h]

/-- The running product from coefficient `i` of `n` on. -/
theorem binomialFrom_choose_eq_some_iff (n : Nat) (i steps : Nat) (c : Nat) :
    binomialFrom n i (n.choose i) steps = some c ↔
      (∀ j, i ≤ j → j < i + steps → n.choose j * (n - j) < wideBound) ∧
        c = n.choose (i + steps) := by
  induction steps generalizing i with
  | zero =>
    rw [binomialFrom, Option.some.injEq, Nat.add_zero]
    refine ⟨fun h => ⟨fun j h₁ h₂ => absurd h₁ (by omega), h.symm⟩, fun h => h.2.symm⟩
  | succ steps ih =>
    rw [binomialFrom]
    split
    · rename_i hlt
      rw [choose_mul_div, ih, show i + 1 + steps = i + (steps + 1) by omega]
      refine and_congr_left fun _ => ⟨fun h j h₁ h₂ => ?_, fun h j h₁ h₂ => h j (by omega) h₂⟩
      rcases Nat.eq_or_lt_of_le h₁ with rfl | h₁
      · exact hlt
      · exact h j h₁ h₂
    · rename_i hge
      exact iff_of_false nofun fun h => hge (h.1 i (Nat.le_refl i) (by omega))

/-- A binomial coefficient is exact wherever it is given, and given unless a product is too
large. -/
theorem binomial?_eq_some_iff {n k c : Nat} :
    binomial? n k = some c ↔ ProductsFit n k ∧ c = n.choose k := by
  rw [binomial?]
  split
  · rename_i h
    rw [Nat.choose_eq_zero_of_lt h, Option.some.injEq]
    exact ⟨fun e => ⟨fun j hj => absurd hj (by omega), e.symm⟩, fun e => e.2.symm⟩
  · rename_i h
    have := binomialFrom_choose_eq_some_iff n 0 (min k (n - k)) c
    rw [Nat.choose_zero_right, Nat.zero_add, choose_min (Nat.le_of_not_lt h)] at this
    rw [this]
    exact and_congr_left fun _ => ⟨fun f j hj => f j (Nat.zero_le j) hj, fun f j _ hj => f j hj⟩

theorem binomial?_eq_none_iff {n k : Nat} : binomial? n k = none ↔ ¬ProductsFit n k := by
  rw [Option.eq_none_iff_forall_ne_some]
  exact ⟨fun h hfit => h _ (binomial?_eq_some_iff.mpr ⟨hfit, rfl⟩),
    fun h c hc => h (binomial?_eq_some_iff.mp hc).1⟩

namespace ProductsFit

theorem binomial?_eq {n k : Nat} (h : ProductsFit n k) : binomial? n k = some (n.choose k) :=
  binomial?_eq_some_iff.mpr ⟨h, rfl⟩

/-- Smaller coefficients have smaller products. -/
theorem mono {n k m i : Nat} (h : ProductsFit n k) (hm : m ≤ n) (hi : i ≤ k) (hd : m - i ≤ n - k) :
    ProductsFit m i := by
  intro j hj
  have hle : m.choose j * (m - j) ≤ n.choose j * (n - j) :=
    Nat.mul_le_mul (Nat.choose_le_choose j hm) (by omega)
  exact Nat.lt_of_le_of_lt hle (h j (by omega))

/-- The coefficient itself is no larger than the last product. -/
theorem choose_lt {n k : Nat} (h : ProductsFit n k) : n.choose k < wideBound := by
  rcases Nat.lt_or_ge n k with hk | hk
  · rw [Nat.choose_eq_zero_of_lt hk]
    decide
  rw [← choose_min hk]
  cases hm : min k (n - k) with
  | zero =>
    rw [Nat.choose_zero_right]
    decide
  | succ j =>
    refine Nat.lt_of_le_of_lt ?_ (h j (by omega))
    rw [← Nat.choose_succ_right_eq]
    exact Nat.le_mul_of_pos_right _ (Nat.succ_pos j)

end ProductsFit

/-! ## The largest product -/

/-- Coefficients grow up to the middle of their row. -/
theorem choose_le_choose_of_le_half {n i j : Nat} (hij : i ≤ j) (hj : j ≤ n / 2) :
    n.choose i ≤ n.choose j := by
  induction j, hij using Nat.le_induction with
  | base => exact Nat.le_refl _
  | succ j _ ih => exact (ih (by omega)).trans (Nat.choose_le_succ_of_lt_half_left (by omega))

/-- No product is larger than the last one. -/
theorem productsFit_iff {n k : Nat} :
    ProductsFit n k ↔ n.choose k * min k (n - k) < wideBound := by
  rcases Nat.lt_or_ge n k with hk | hk
  · rw [Nat.choose_eq_zero_of_lt hk, Nat.zero_mul]
    exact iff_of_true (fun j hj => absurd hj (by omega)) (by decide)
  rw [← choose_min hk]
  constructor
  · intro h
    cases hm : min k (n - k) with
    | zero =>
      rw [Nat.mul_zero]
      decide
    | succ j =>
      rw [Nat.choose_succ_right_eq]
      exact h j (by omega)
  · intro h j hj
    rw [← Nat.choose_succ_right_eq]
    have hle : n.choose (j + 1) ≤ n.choose (min k (n - k)) := choose_le_choose_of_le_half hj (by omega)
    exact Nat.lt_of_le_of_lt (Nat.mul_le_mul hle hj) h

/-- A running product takes no more steps than what it comes to. -/
theorem min_le_choose (n k : Nat) : min k (n - k) ≤ n.choose k := by
  rcases Nat.lt_or_ge n k with hk | hk
  · omega
  rw [← choose_min hk]
  cases hm : min k (n - k) with
  | zero => exact Nat.zero_le _
  | succ j =>
    calc j + 1
        ≤ (j + 1 + 1).choose (j + 1) := by
          rw [Nat.choose_succ_self_right]
          exact Nat.le_succ _
      _ ≤ n.choose (j + 1) := Nat.choose_le_choose _ (by omega)

/-- The products of a coefficient of 64 bits fit. -/
theorem ProductsFit.of_choose_lt {n k : Nat} (h : n.choose k < UInt64.size) : ProductsFit n k := by
  rw [productsFit_iff]
  calc n.choose k * min k (n - k)
      ≤ n.choose k * n.choose k := Nat.mul_le_mul_left _ (min_le_choose n k)
    _ < UInt64.size * UInt64.size := Nat.mul_lt_mul'' h h

/-! ## The result -/

/-- There is a result exactly if the last product fits. -/
theorem binomial?_eq_ite (n k : Nat) :
    binomial? n k = if n.choose k * min k (n - k) < wideBound then some (n.choose k) else none := by
  split
  · rename_i h
    exact (productsFit_iff.mpr h).binomial?_eq
  · rename_i h
    exact binomial?_eq_none_iff.mpr (mt productsFit_iff.mp h)

/-- What is multiplied up in some steps is a coefficient itself, and the next division is exact. -/
theorem dvd_of_binomialFrom {n i product : Nat} (h : binomialFrom n 0 1 i = some product) :
    product = n.choose i ∧ i + 1 ∣ product * (n - i) := by
  have hexact := binomialFrom_choose_eq_some_iff n 0 i product
  rw [Nat.choose_zero_right, Nat.zero_add] at hexact
  obtain ⟨-, rfl⟩ := hexact.mp h
  exact ⟨rfl, n.choose (i + 1), by rw [← Nat.choose_succ_right_eq, Nat.mul_comm]⟩

/-- The binomial coefficient of `k` out of `n`, by a running product whose divisions are all exact. It is given
exactly if it fits 128 bits also when it is multiplied with the last divisor, which is `k` or `n - k`, the
smaller of the two. A coefficient that does not fit itself is never given, one that fits can be missed. -/
theorem binomial?_exact (n k : Nat) :
    binomial? n k = (if n.choose k * min k (n - k) < wideBound then some (n.choose k) else none) ∧
    (wideBound ≤ n.choose k → binomial? n k = none) ∧
    ∀ i product, binomialFrom n 0 1 i = some product →
      product = n.choose i ∧ i + 1 ∣ product * (n - i) := by
  refine ⟨binomial?_eq_ite n k, fun hlarge => ?_, fun i product => dvd_of_binomialFrom⟩
  exact binomial?_eq_none_iff.mpr fun hfit => Nat.not_lt.mpr hlarge hfit.choose_lt

/-- Half of the bits of 16 bytes: the coefficient fits, the last product does not. Half of the bits of 17 bytes:
the coefficient does not fit. -/
theorem binomial?_exact_middle :
    Nat.choose 128 64 < wideBound ∧ binomial? 128 64 = none ∧
    wideBound ≤ Nat.choose 136 68 ∧ binomial? 136 68 = none ∧
    binomialFrom 128 0 1 2 = some 8128 ∧ 3 ∣ 8128 * 126 := by
  have hfits : Nat.choose 128 64 < wideBound ∧
      wideBound ≤ Nat.choose 128 64 * min 64 (128 - 64) := by
    rw [Nat.choose_eq_descFactorial_div_factorial]
    decide +kernel
  have hlarge : wideBound ≤ Nat.choose 136 68 := by
    rw [Nat.choose_eq_descFactorial_div_factorial]
    decide +kernel
  have hsteps : binomialFrom 128 0 1 2 = some 8128 := by decide
  obtain ⟨hmiddle, -, hdivides⟩ := binomial?_exact 128 64
  rw [if_neg (Nat.not_lt.mpr hfits.2)] at hmiddle
  exact ⟨hfits.1, hmiddle, hlarge, (binomial?_exact 136 68).2.1 hlarge, hsteps, (hdivides 2 8128 hsteps).2⟩

/-! ## Numbered shells -/

/-- A shell is numbered only if the number of its combinations is computed exactly. -/
theorem shellSize?_eq_some {bits distance count : Nat} (h : shellSize? bits distance = some count) :
    ProductsFit bits distance ∧ count = bits.choose distance := by
  rw [shellSize?, Option.filter_eq_some_iff] at h
  exact binomial?_eq_some_iff.mp h.1

/-- It is numbered exactly if it has few enough combinations, since no product of theirs is too large. -/
theorem shellSize?_eq_ite (bits distance : Nat) : shellSize? bits distance =
    if bits.choose distance < idBound then some (bits.choose distance) else none := by
  rw [shellSize?]
  by_cases hfit : ProductsFit bits distance
  · rw [hfit.binomial?_eq, Option.filter_some]
    simp only [decide_eq_true_eq]
  · have hlarge : ¬bits.choose distance < idBound := fun h =>
      hfit (.of_choose_lt (Nat.lt_trans h (by decide)))
    rw [binomial?_eq_none_iff.mpr hfit, if_neg hlarge, Option.filter_none]

end MeasuredBoot
