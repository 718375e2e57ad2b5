import MeasuredBoot.Combination
import MeasuredBoot.Proofs.Combination.Binomial
import Mathlib.Data.Finset.Powerset

/-!
# Combinations and their numbers

The number of a combination in colexicographic order is the sum of the binomial coefficients of its
positions (`weight`). Everything is proved by taking a combination apart at its largest position
(`Chooses.cases`, `Chooses.concat`), as `unrank` builds it up:

* `weight_lt`, `weight_injective`: numbers are below the number of combinations, and no two
  combinations of one size share one;
* `weight_lt_weight_iff`: their order is the colexicographic one;
* `chooses_unrank`: `unrank` gives a combination, whatever the number;
* `rank?_eq`, `unrank_spec`: what the bounded functions compute, as long as the products of the
  shell's own binomial coefficient fit;
* `rank_unrank_bijective`: `rank?` and `unrank` are inverse to each other.
-/

namespace MeasuredBoot.Combination

/-- A combination of `distance` positions below `bits`. -/
structure Chooses (c : Combination) (distance bits : Nat) : Prop where
  ascending : c.Pairwise (· < ·)
  length_eq : c.length = distance
  below : ∀ i ∈ c, i < bits

/-- The number of combinations that precede because of the positions in a list, the first of which
is the `i`-th one of the combination. -/
def weight (i : Nat) : List Nat → Nat
  | [] => 0
  | c :: rest => c.choose (i + 1) + weight (i + 1) rest

theorem weight_append (i : Nat) (xs ys : List Nat) :
    weight i (xs ++ ys) = weight i xs + weight (i + xs.length) ys := by
  induction xs generalizing i with
  | nil => rw [List.nil_append, weight, Nat.zero_add, List.length_nil, Nat.add_zero]
  | cons x xs ih =>
    rw [List.cons_append, weight, weight, ih, List.length_cons, ← Nat.add_assoc,
      show i + 1 + xs.length = i + (xs.length + 1) by omega]

theorem weight_concat {xs : List Nat} {k : Nat} (h : xs.length = k) (c : Nat) :
    weight 0 (xs ++ [c]) = weight 0 xs + c.choose (k + 1) := by
  rw [weight_append, weight, weight, Nat.zero_add, h, Nat.add_zero]

/-- The lowest positions come first. -/
theorem weight_range (n : Nat) : weight 0 (List.range n) = 0 := by
  induction n with
  | zero => rfl
  | succ n ih =>
    rw [List.range_succ, weight_concat List.length_range, ih, Nat.zero_add,
      Nat.choose_eq_zero_of_lt (Nat.lt_succ_self n)]

/-! ## Taking a combination apart at its largest position -/

namespace Chooses

theorem nil (bits : Nat) : Chooses [] 0 bits := ⟨.nil, rfl, nofun⟩

theorem eq_nil {c : Combination} {bits : Nat} (h : Chooses c 0 bits) : c = [] :=
  List.eq_nil_of_length_eq_zero h.length_eq

theorem concat {c : Combination} {k top bits : Nat} (h : Chooses c k top) (ht : top < bits) :
    Chooses (c ++ [top]) (k + 1) bits where
  ascending := by
    rw [List.pairwise_append]
    refine ⟨h.ascending, List.pairwise_singleton _ _, fun i hi j hj => ?_⟩
    rw [List.mem_singleton.mp hj]
    exact h.below i hi
  length_eq := by rw [List.length_append, h.length_eq, List.length_singleton]
  below i hi := by
    rcases List.mem_append.mp hi with hi | hi
    · exact Nat.lt_trans (h.below i hi) ht
    · rwa [List.mem_singleton.mp hi]

theorem cases {c : Combination} {k bits : Nat} (h : Chooses c (k + 1) bits) :
    ∃ lower top, c = lower ++ [top] ∧ Chooses lower k top ∧ top < bits := by
  rcases List.eq_nil_or_concat c with rfl | ⟨lower, top, rfl⟩
  · exact absurd h.length_eq (Nat.succ_ne_zero k).symm
  · rw [List.concat_eq_append] at h ⊢
    obtain ⟨hl, -, hlt⟩ := List.pairwise_append.mp h.ascending
    have hlen := h.length_eq
    rw [List.length_append, List.length_singleton] at hlen
    exact ⟨lower, top, rfl, ⟨hl, by omega, fun i hi => hlt i hi top (List.mem_singleton_self top)⟩,
      h.below top (List.mem_append_right _ (List.mem_singleton_self top))⟩

end Chooses

/-- The lowest positions. -/
theorem chooses_range {k bits : Nat} (h : k ≤ bits) : Chooses (List.range k) k bits where
  ascending := List.pairwise_lt_range
  length_eq := List.length_range
  below _ hi := Nat.lt_of_lt_of_le (List.mem_range.mp hi) h

/-- Numbers are below the number of combinations. -/
theorem weight_lt {c : Combination} {k bits : Nat} (h : Chooses c k bits) :
    weight 0 c < bits.choose k := by
  induction k generalizing c bits with
  | zero =>
    rw [h.eq_nil, Nat.choose_zero_right]
    exact Nat.zero_lt_one
  | succ k ih =>
    obtain ⟨lower, top, rfl, hl, ht⟩ := h.cases
    have := ih hl
    calc weight 0 (lower ++ [top])
        = weight 0 lower + top.choose (k + 1) := weight_concat hl.length_eq top
      _ < top.choose k + top.choose (k + 1) := by omega
      _ = (top + 1).choose (k + 1) := (Nat.choose_succ_succ' top k).symm
      _ ≤ bits.choose (k + 1) := Nat.choose_le_choose _ ht

/-- The largest position of a combination is bounded by its number. -/
theorem top_le_of_weight_le {c c' : Combination} {k top top' : Nat} (h : Chooses c k top)
    (h' : Chooses c' k top') (hw : weight 0 (c' ++ [top']) ≤ weight 0 (c ++ [top])) :
    top' ≤ top := by
  by_contra hlt
  have := weight_lt (h.concat (Nat.lt_add_one top))
  have : (top + 1).choose (k + 1) ≤ top'.choose (k + 1) := Nat.choose_le_choose _ (by omega)
  rw [weight_concat h'.length_eq] at hw
  omega

/-- No two combinations of one size have the same number. -/
theorem weight_injective {c c' : Combination} {k bits bits' : Nat} (h : Chooses c k bits)
    (h' : Chooses c' k bits') (hw : weight 0 c = weight 0 c') : c = c' := by
  induction k generalizing c c' bits bits' with
  | zero => rw [h.eq_nil, h'.eq_nil]
  | succ k ih =>
    obtain ⟨lower, top, rfl, hl, -⟩ := h.cases
    obtain ⟨lower', top', rfl, hl', -⟩ := h'.cases
    obtain rfl : top = top' := Nat.le_antisymm
      (top_le_of_weight_le hl' hl (Nat.le_of_eq hw)) (top_le_of_weight_le hl hl' (Nat.le_of_eq hw.symm))
    rw [weight_concat hl.length_eq, weight_concat hl'.length_eq, Nat.add_right_cancel_iff] at hw
    rw [ih hl hl' hw]

/-- The order of the numbers is that of the combinations, by their largest positions first. -/
theorem weight_lt_weight_iff {c c' : Combination} {k bits bits' : Nat} (h : Chooses c k bits)
    (h' : Chooses c' k bits') : weight 0 c < weight 0 c' ↔ c.reverse < c'.reverse := by
  induction k generalizing c c' bits bits' with
  | zero =>
    rw [h.eq_nil, h'.eq_nil]
    exact iff_of_false (Nat.lt_irrefl _) (List.lt_irrefl _)
  | succ k ih =>
    obtain ⟨lower, top, rfl, hl, -⟩ := h.cases
    obtain ⟨lower', top', rfl, hl', -⟩ := h'.cases
    rw [List.reverse_concat, List.reverse_concat, List.cons_lt_cons_iff]
    constructor
    · intro hlt
      rcases Nat.lt_or_eq_of_le (top_le_of_weight_le hl' hl (Nat.le_of_lt hlt)) with htop | rfl
      · exact .inl htop
      · rw [weight_concat hl.length_eq, weight_concat hl'.length_eq, Nat.add_lt_add_iff_right] at hlt
        exact .inr ⟨rfl, (ih hl hl').mp hlt⟩
    · rintro (htop | ⟨rfl, hlt⟩)
      · refine Nat.lt_of_not_le fun hle => ?_
        have := top_le_of_weight_le hl hl' hle
        omega
      · rw [weight_concat hl.length_eq, weight_concat hl'.length_eq, Nat.add_lt_add_iff_right]
        exact (ih hl hl').mpr hlt

/-! ## The number of a combination -/

/-- The sum is exact wherever it is given. -/
theorem eq_of_rankFrom {i sum id : Nat} {cs : List Nat} (h : rankFrom i sum cs = some id) :
    id = sum + weight i cs := by
  induction cs generalizing i sum with
  | nil => exact (Option.some.inj h).symm
  | cons c rest ih =>
    rw [rankFrom] at h
    obtain ⟨b, hb, h⟩ := Option.bind_eq_some_iff.mp h
    obtain rfl := (binomial?_eq_some_iff.mp hb).2
    dsimp only at h
    split at h
    · rw [ih h, weight, Nat.add_assoc]
    · cases h

/-- `rank?` is exact wherever it is given. -/
theorem eq_of_rank? {c : Combination} {id : Nat} (h : rank? c = some id) : id = weight 0 c :=
  (eq_of_rankFrom h).trans (Nat.zero_add _)

/-- The sum of coefficients with products that fit is exact as long as it fits itself. -/
theorem rankFrom_eq {i sum : Nat} {cs : List Nat}
    (hfit : ∀ j (hj : j < cs.length), ProductsFit cs[j] (i + j + 1))
    (hlt : sum + weight i cs < wideBound) : rankFrom i sum cs = some (sum + weight i cs) := by
  induction cs generalizing i sum with
  | nil => rfl
  | cons c rest ih =>
    have hc := (hfit 0 (Nat.zero_lt_succ _)).binomial?_eq
    rw [List.getElem_cons_zero, Nat.add_zero] at hc
    rw [weight, ← Nat.add_assoc] at hlt ⊢
    rw [rankFrom, hc, Option.bind_eq_bind, Option.bind_some, if_pos (by omega)]
    refine ih (fun j hj => ?_) hlt
    have := hfit (j + 1) (Nat.succ_lt_succ hj)
    rwa [List.getElem_cons_succ, show i + (j + 1) + 1 = i + 1 + j + 1 by omega] at this

/-- There is room for the positions above one of a combination. -/
theorem getElem_add_le {ids : Combination} {k bits : Nat} (h : Chooses ids k bits) {j : Nat}
    (hj : j < ids.length) : ids[j] + k ≤ bits + j := by
  induction k generalizing ids bits with
  | zero =>
    rw [h.length_eq] at hj
    omega
  | succ k ih =>
    obtain ⟨lower, top, rfl, hl, ht⟩ := h.cases
    by_cases hlt : j < lower.length
    · have := ih hl hlt
      rw [List.getElem_append_left hlt]
      omega
    · obtain rfl : j = lower.length := by
        rw [List.length_append, List.length_singleton] at hj
        omega
      rw [List.getElem_concat_length rfl, hl.length_eq]
      omega

/-- `rank?` is exact and gives up on no combination of a shell with products that fit. -/
theorem rank?_eq {c : Combination} {k bits : Nat} (hfit : ProductsFit bits k)
    (h : Chooses c k bits) : rank? c = some (weight 0 c) := by
  have hlt := Nat.lt_trans (weight_lt h) hfit.choose_lt
  rw [rank?, rankFrom_eq (fun j hj => ?_) (by rwa [Nat.zero_add]), Nat.zero_add]
  have := getElem_add_le h hj
  have hb := h.below _ (List.getElem_mem hj)
  rw [h.length_eq] at hj
  exact hfit.mono (Nat.le_of_lt hb) (by omega) (by omega)

/-! ## The combination of a number -/

theorem exceeds_eq (id : Nat) {i c : Nat} (hfit : ProductsFit c i) :
    exceeds id i c = decide (id < c.choose i) := by
  rw [exceeds, hfit.binomial?_eq]

theorem topPosition_le (id i c : Nat) : topPosition id i c ≤ c := by
  induction c with
  | zero => exact Nat.le_refl 0
  | succ c ih =>
    rw [topPosition]
    split
    · exact Nat.le_succ_of_le ih
    · exact Nat.le_refl _

theorem le_topPosition {i c : Nat} (h : i ≤ c + 1) (id : Nat) : i ≤ topPosition id i c + 1 := by
  induction c with
  | zero => exact h
  | succ c ih =>
    rw [topPosition]
    split
    · rename_i hexceeds
      exact ih (of_decide_eq_true (Bool.and_eq_true_iff.mp hexceeds).1)
    · exact h

/-- The search for the largest position ends at the one that is given by the number. -/
theorem topPosition_spec {id i c : Nat} (hi : 0 < i) (hfit : ProductsFit c i)
    (hid : id < (c + 1).choose i) :
    (topPosition id i c).choose i ≤ id ∧ id < (topPosition id i c + 1).choose i := by
  induction c with
  | zero =>
    rw [topPosition]
    refine ⟨?_, hid⟩
    rw [Nat.choose_eq_zero_of_lt hi]
    exact Nat.zero_le id
  | succ c ih =>
    rw [topPosition, exceeds_eq id hfit]
    split
    · rename_i h
      rw [Bool.and_eq_true, decide_eq_true_iff, decide_eq_true_iff] at h
      exact ih (hfit.mono (Nat.le_succ c) (Nat.le_refl i) (by omega)) h.2
    · rename_i h
      rw [Bool.and_eq_true, decide_eq_true_iff, decide_eq_true_iff, not_and_or] at h
      refine ⟨?_, hid⟩
      rcases h with h | h
      · rw [Nat.choose_eq_zero_of_lt (by omega)]
        exact Nat.zero_le id
      · exact Nat.le_of_not_lt h

theorem unrankOnto_eq_append (above : List Nat) (id upper size : Nat) :
    unrankOnto above id upper size = unrankOnto [] id upper size ++ above := by
  induction size generalizing above id upper with
  | zero => rfl
  | succ size ih =>
    rw [unrankOnto, ih, unrankOnto, ih [_], List.append_assoc, List.singleton_append]

/-- `unrank` puts the largest position behind the combination of what remains of the number. -/
theorem unrank_succ {id k bits top : Nat} (h : topPosition id (k + 1) (max (bits - 1) k) = top) :
    unrank id (k + 1) bits = unrank (id - (binomial? top (k + 1)).getD 0) k top ++ [top] := by
  subst h
  rw [unrank, unrankOnto, unrankOnto_eq_append]
  rfl

/-- Every number gives a combination, be it the one with that number or not. -/
theorem chooses_unrank {k bits : Nat} (h : k ≤ bits) (id : Nat) : Chooses (unrank id k bits) k bits := by
  induction k generalizing id bits with
  | zero => exact .nil bits
  | succ k ih =>
    obtain ⟨top, htop⟩ : ∃ top, topPosition id (k + 1) (max (bits - 1) k) = top := ⟨_, rfl⟩
    have hle := topPosition_le id (k + 1) (max (bits - 1) k)
    have hge := le_topPosition (i := k + 1) (c := max (bits - 1) k) (by omega) id
    rw [htop] at hle hge
    rw [unrank_succ htop]
    exact (ih (by omega) _).concat (by omega)

/-- Numbers in the range of a shell with products that fit give combinations with these numbers. -/
theorem weight_unrank {id k bits : Nat} (hfit : ProductsFit bits k) (hid : id < bits.choose k) :
    weight 0 (unrank id k bits) = id := by
  induction k generalizing id bits with
  | zero =>
    rw [Nat.choose_zero_right, Nat.lt_one_iff] at hid
    exact hid.symm
  | succ k ih =>
    have hk : k + 1 ≤ bits := Nat.choose_ne_zero_iff.mp (Nat.ne_zero_of_lt hid)
    have hstart : max (bits - 1) k = bits - 1 := by omega
    have hlast : bits - 1 + 1 = bits := by omega
    obtain ⟨top, htop⟩ : ∃ top, topPosition id (k + 1) (max (bits - 1) k) = top := ⟨_, rfl⟩
    have hle := topPosition_le id (k + 1) (bits - 1)
    have hge := le_topPosition (i := k + 1) (c := bits - 1) (by omega) id
    obtain ⟨hlo, hhi⟩ := topPosition_spec (i := k + 1) (c := bits - 1) (by omega)
      (hfit.mono (by omega) (Nat.le_refl _) (by omega)) (by rwa [hlast])
    rw [← hstart, htop] at hle hge hlo hhi
    have hsucc := unrank_succ htop
    rw [(hfit.mono (by omega : top ≤ bits) (Nat.le_refl _) (by omega)).binomial?_eq,
      Option.getD_some] at hsucc
    rw [Nat.choose_succ_succ'] at hhi
    -- What remains of the number is below the number of combinations under the largest position.
    have hrest : id - top.choose (k + 1) < top.choose k := by omega
    have hlower := chooses_unrank (Nat.le_of_succ_le_succ hge) (id - top.choose (k + 1))
    rw [hsucc, weight_concat hlower.length_eq, ih (hfit.mono (by omega) (by omega) (by omega)) hrest]
    omega

theorem unrank_spec {id k bits : Nat} (hfit : ProductsFit bits k) (hid : id < bits.choose k) :
    Chooses (unrank id k bits) k bits ∧ weight 0 (unrank id k bits) = id :=
  ⟨chooses_unrank (Nat.choose_ne_zero_iff.mp (Nat.ne_zero_of_lt hid)) id, weight_unrank hfit hid⟩

/-- The combination of a combination's number is the combination itself. -/
theorem unrank_weight {c : Combination} {k bits : Nat} (hfit : ProductsFit bits k)
    (h : Chooses c k bits) : unrank (weight 0 c) k bits = c := by
  obtain ⟨hc, hw⟩ := unrank_spec hfit (weight_lt h)
  exact weight_injective hc h hw

/-- Ranking is a bijection between the combinations of `k` positions below `n` and the numbers below
their count, whenever the count is given, and none of the binomial coefficients that ranking and
unranking then look at is too large. -/
theorem rank_unrank_bijective {n k count : Nat} (h : binomial? n k = some count) :
    count = ((Finset.range n).powersetCard k).card ∧
      (∀ id < count, Chooses (unrank id k n) k n ∧ rank? (unrank id k n) = some id) ∧
      (∀ c, Chooses c k n → ∃ id, rank? c = some id ∧ id < count ∧ unrank id k n = c) ∧
      ∀ c i, c < n → i ≤ k → c - i ≤ n - k → binomial? c i = some (c.choose i) := by
  obtain ⟨hfit, rfl⟩ := binomial?_eq_some_iff.mp h
  refine ⟨by rw [Finset.card_powersetCard, Finset.card_range], fun id hid => ?_, fun c hc => ?_,
    fun c i hc hi hd => ?_⟩
  · obtain ⟨hc, hw⟩ := unrank_spec hfit hid
    exact ⟨hc, by rw [rank?_eq hfit hc, hw]⟩
  · exact ⟨weight 0 c, rank?_eq hfit hc, weight_lt hc, unrank_weight hfit hc⟩
  · exact (hfit.mono (Nat.le_of_lt hc) hi hd).binomial?_eq

/-- Nearly all of 64 bits, where the binomial coefficient is computed from the other side. -/
theorem rank_unrank_nearly_all :
    binomial? 64 62 = some 2016 ∧ Chooses (unrank 2000 62 64) 62 64 ∧
      rank? (unrank 2000 62 64) = some 2000 :=
  have hcount : binomial? 64 62 = some 2016 := by decide
  ⟨hcount, (rank_unrank_bijective hcount).2.1 2000 (by decide)⟩

end MeasuredBoot.Combination
