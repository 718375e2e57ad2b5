import MeasuredBoot.Combination.Cursor
import MeasuredBoot.Proofs.Combination.Ranking

/-!
# Stepping through combinations

`Cursor.advance?` moves the first position that can move, over a block of neighbouring positions
below it, which it resets. The number of such a block is one less than the binomial coefficient that
the moving position adds, so that the number grows by one:

* `nextFrom?_spec`: the step, by induction on the positions above the block;
* `advance?_spec`: the next combination has the next number, and the last one has no next;
* `advance_unrank`: a cursor at a number moves to the next number;
* `Reached`: the positions of a cursor that seeks numbers and steps on, in any order;
* `weight_advance_iterate`: a number of steps from any of them;
* `advance_enumerates`: what a step does at each of them.
-/

namespace MeasuredBoot.Cursor

open Combination (Chooses chooses_range chooses_unrank eq_of_rank? rank? rank?_eq weight weight_range
  weight_append weight_injective weight_lt weight_lt_weight_iff unrank unrank_spec)

/-- The positions `rest` of a combination below `bits`, which stand above `i` others. -/
structure Above (rest : List Nat) (i bits : Nat) : Prop where
  ascending : rest.Pairwise (· < ·)
  le : ∀ c ∈ rest, i ≤ c
  below : ∀ c ∈ rest, c < bits

namespace Above

variable {c : Nat} {rest : List Nat} {i bits : Nat}

/-- The next position, or the end. -/
theorem lt_head (h : Above (c :: rest) i bits) : c < rest.head?.getD bits := by
  cases rest with
  | nil => exact h.below c List.mem_cons_self
  | cons d rest => exact (List.pairwise_cons.mp h.ascending).1 d List.mem_cons_self

theorem tail (h : Above (c :: rest) i bits) : Above rest (i + 1) bits where
  ascending := (List.pairwise_cons.mp h.ascending).2
  le d hd := by
    have := (List.pairwise_cons.mp h.ascending).1 d hd
    have := h.le c List.mem_cons_self
    omega
  below d hd := h.below d (List.mem_cons_of_mem _ hd)

/-- Positions above the head of an ascending list. -/
theorem lt_of_lt_head (h : Above rest i bits) {d : Nat} (hd : d < rest.head?.getD bits) :
    ∀ e ∈ rest, d < e := by
  cases rest with
  | nil => nofun
  | cons x rest =>
    intro e he
    rcases List.mem_cons.mp he with rfl | he
    · exact hd
    · exact Nat.lt_trans hd ((List.pairwise_cons.mp h.ascending).1 e he)

/-- Moving a position up and resetting those below it gives a combination. -/
theorem chooses_move (h : Above (c :: rest) i bits) (hm : c + 1 < rest.head?.getD bits) :
    Chooses (List.range i ++ (c + 1) :: rest) (i + (rest.length + 1)) bits := by
  have hi := h.le c List.mem_cons_self
  have hup := h.tail.lt_of_lt_head hm
  have hb : c + 1 < bits := by
    cases rest with
    | nil => exact hm
    | cons d rest => exact Nat.lt_trans hm (h.tail.below d List.mem_cons_self)
  refine ⟨?_, by rw [List.length_append, List.length_range, List.length_cons], fun d hd => ?_⟩
  · refine List.pairwise_append.mpr ⟨List.pairwise_lt_range,
      List.pairwise_cons.mpr ⟨hup, h.tail.ascending⟩, fun d hd e he => ?_⟩
    have hd := List.mem_range.mp hd
    rcases List.mem_cons.mp he with rfl | he
    · omega
    · have := hup e he
      omega
  · rcases List.mem_append.mp hd with hd | hd
    · have hd := List.mem_range.mp hd
      omega
    · rcases List.mem_cons.mp hd with rfl | hd
      · exact hb
      · exact h.tail.below d hd

end Above

/-- A step over a block of `i` neighbouring positions, whose number is one less than the binomial
coefficient of the position that ends the block. -/
theorem nextFrom?_spec {rest : List Nat} {i bits : Nat} (h : Above rest i bits) :
    (∀ next, nextFrom? bits i rest = some next →
      Chooses next (i + rest.length) bits ∧
        weight 0 next = (rest.head?.getD bits).choose i + weight i rest) ∧
    (nextFrom? bits i rest = none →
      (rest.head?.getD bits).choose i + weight i rest = bits.choose (i + rest.length)) := by
  induction rest generalizing i with
  | nil => exact ⟨nofun, fun _ => rfl⟩
  | cons c rest ih =>
    rw [nextFrom?]
    split
    · rename_i hm
      refine ⟨fun next hn => ?_, nofun⟩
      obtain rfl := Option.some.inj hn
      refine ⟨h.chooses_move hm, ?_⟩
      rw [weight_append, weight_range, List.length_range, Nat.zero_add, Nat.zero_add, weight, weight,
        List.head?_cons, Option.getD_some, Nat.choose_succ_succ', Nat.add_assoc]
    · rename_i hm
      have hblock : rest.head?.getD bits = c + 1 := by
        have := h.lt_head
        omega
      have hw : (rest.head?.getD bits).choose (i + 1) + weight (i + 1) rest =
          ((c :: rest).head?.getD bits).choose i + weight i (c :: rest) := by
        rw [hblock, weight, List.head?_cons, Option.getD_some, Nat.choose_succ_succ', Nat.add_assoc]
      have hlen : i + 1 + rest.length = i + (c :: rest).length := by
        rw [List.length_cons]
        omega
      have := ih h.tail
      rwa [hw, hlen] at this

/-- The next combination has the next number, and the last one has no next. -/
theorem advance?_spec {cursor : Cursor} {k : Nat} (h : Chooses cursor.current k cursor.bits) :
    (∀ next, cursor.advance? = some next →
      next.bits = cursor.bits ∧ Chooses next.current k cursor.bits ∧
        weight 0 next.current = weight 0 cursor.current + 1) ∧
    (cursor.advance? = none → weight 0 cursor.current + 1 = cursor.bits.choose k) := by
  have habove : Above cursor.current 0 cursor.bits :=
    ⟨h.ascending, fun c _ => Nat.zero_le c, h.below⟩
  obtain ⟨hsome, hnone⟩ := nextFrom?_spec habove
  rw [Nat.zero_add, h.length_eq, Nat.choose_zero_right, Nat.add_comm 1] at hsome hnone
  refine ⟨fun next hn => ?_, fun hn => hnone (Option.map_eq_none_iff.mp hn)⟩
  obtain ⟨current, hc, rfl⟩ := Option.map_eq_some_iff.mp hn
  exact ⟨rfl, hsome current hc⟩

/-! ## Seeking a number and stepping on -/

theorem seek_first (distance bits id : Nat) :
    (first distance bits).seek id = ⟨bits, unrank id distance bits⟩ := by
  rw [seek, first, List.length_range]

/-- A cursor at a number that is not the last one moves to the next number. -/
theorem advance_unrank {bits k id : Nat} (hfit : ProductsFit bits k) (hid : id + 1 < bits.choose k) :
    advance ⟨bits, unrank id k bits⟩ = ⟨bits, unrank (id + 1) k bits⟩ := by
  obtain ⟨hc, hw⟩ := unrank_spec hfit (Nat.lt_of_succ_lt hid)
  obtain ⟨hc', hw'⟩ := unrank_spec hfit hid
  let cursor : Cursor := ⟨bits, unrank id k bits⟩
  obtain ⟨hsome, hnone⟩ := advance?_spec (show Chooses cursor.current k cursor.bits from hc)
  show advance cursor = _
  rw [advance]
  cases hn : cursor.advance? with
  | none =>
    have hlast : weight 0 (unrank id k bits) + 1 = bits.choose k := hnone hn
    rw [hw] at hlast
    omega
  | some next =>
    obtain ⟨hb, hchooses, hweight⟩ := hsome next hn
    have hcurrent := weight_injective hchooses hc' (hweight.trans (by rw [hw', hw]))
    cases next
    exact congrArg₂ Cursor.mk hb hcurrent

/-! ## Positions of a cursor -/

section

variable {distance bits : Nat} {cursor : Cursor}

/-- A cursor that was at the first combination, has sought numbers and has stepped on. -/
inductive Reached (distance bits : Nat) : Cursor → Prop
  | first : Reached distance bits (.first distance bits)
  | seek {cursor : Cursor} (h : Reached distance bits cursor) (id : Nat) :
    Reached distance bits (cursor.seek id)
  | advance {cursor : Cursor} (h : Reached distance bits cursor) : Reached distance bits cursor.advance

/-- There is a next combination exactly if there is a next number. -/
theorem isSome_advance?_iff (h : Chooses cursor.current distance cursor.bits) :
    cursor.advance?.isSome = true ↔ weight 0 cursor.current + 1 < cursor.bits.choose distance := by
  obtain ⟨hsome, hnone⟩ := advance?_spec h
  cases hn : cursor.advance? with
  | none =>
    have := hnone hn
    exact iff_of_false Bool.false_ne_true (by omega)
  | some next =>
    obtain ⟨-, hchooses, hweight⟩ := hsome next hn
    have := weight_lt hchooses
    exact iff_of_true rfl (by omega)

theorem advance_of_some {next : Cursor} (h : cursor.advance? = some next) : cursor.advance = next := by
  rw [advance, h, Option.getD_some]

theorem advance_of_none (h : cursor.advance? = none) : cursor.advance = cursor := by
  rw [advance, h, Option.getD_none]

/-- A step stays within the combinations, and counts up to the last number. -/
theorem advance_spec (h : Chooses cursor.current distance cursor.bits) :
    cursor.advance.bits = cursor.bits ∧ Chooses cursor.advance.current distance cursor.bits ∧
      weight 0 cursor.advance.current =
        min (weight 0 cursor.current + 1) (cursor.bits.choose distance - 1) := by
  obtain ⟨hsome, hnone⟩ := advance?_spec h
  cases hn : cursor.advance? with
  | none =>
    have := hnone hn
    rw [advance_of_none hn]
    exact ⟨rfl, h, by omega⟩
  | some next =>
    obtain ⟨hbits, hchooses, hweight⟩ := hsome next hn
    have := weight_lt hchooses
    rw [advance_of_some hn]
    exact ⟨hbits, hchooses, by omega⟩

/-- All positions are combinations of the same size, also those of numbers that are not exact. -/
theorem Reached.chooses (hle : distance ≤ bits) (h : Reached distance bits cursor) :
    cursor.bits = bits ∧ Chooses cursor.current distance bits := by
  induction h with
  | first => exact ⟨rfl, chooses_range hle⟩
  | seek _ id ih =>
    obtain ⟨hbits, hchooses⟩ := ih
    rw [Cursor.seek, hchooses.length_eq, hbits]
    exact ⟨rfl, chooses_unrank hle id⟩
  | advance _ ih =>
    obtain ⟨rfl, hchooses⟩ := ih
    obtain ⟨hbits, hafter, -⟩ := advance_spec hchooses
    exact ⟨hbits, hafter⟩

/-- Steps count up one by one, as far as the last number. -/
theorem weight_advance_iterate (hle : distance ≤ bits) (h : Reached distance bits cursor) (n : Nat) :
    weight 0 (advance^[n] cursor).current =
      min (weight 0 cursor.current + n) (bits.choose distance - 1) := by
  induction n generalizing cursor with
  | zero =>
    have := weight_lt (h.chooses hle).2
    show weight 0 cursor.current = _
    omega
  | succ n ih =>
    obtain ⟨rfl, hchooses⟩ := h.chooses hle
    obtain ⟨-, -, hweight⟩ := advance_spec hchooses
    rw [Function.iterate_succ_apply, ih h.advance, hweight]
    omega

/-- Seeking a number of a shell that can be counted leads to the combination with that number. -/
theorem Reached.rank?_seek (h : Reached distance bits cursor) {id count : Nat}
    (hcount : binomial? bits distance = some count) (hid : id < count) :
    rank? (cursor.seek id).current = some id := by
  obtain ⟨hfit, rfl⟩ := binomial?_eq_some_iff.mp hcount
  have hle : distance ≤ bits := Nat.le_of_not_lt fun hlt => by
    rw [Nat.choose_eq_zero_of_lt hlt] at hid
    exact absurd hid (Nat.not_lt_zero id)
  obtain ⟨hbits, hchooses⟩ := h.chooses hle
  obtain ⟨hunrank, hweight⟩ := unrank_spec hfit hid
  rw [Cursor.seek, hchooses.length_eq, hbits]
  exact (rank?_eq hfit hunrank).trans (congrArg some hweight)

/-- Wherever a cursor has got to, it stands at `distance` ascending positions below `bits`. There is a step to
take exactly if the number of that combination is not the last one; it leads to the combination with the next
number, and otherwise the cursor stays. So steps count through the numbers one by one up to the last one, and
numbers are in the order that compares the largest positions first. The number is the one that `rank?` gives,
wherever that fits, and the one that was sought, wherever the combinations can be counted. -/
theorem advance_enumerates (hle : distance ≤ bits) (h : Reached distance bits cursor) :
    Chooses cursor.current distance bits ∧
    (cursor.advance?.isSome = true ↔ weight 0 cursor.current + 1 < bits.choose distance) ∧
    (∀ next, cursor.advance? = some next → cursor.advance = next ∧ next.bits = bits ∧
      ∀ c, Chooses c distance bits → (c = next.current ↔ weight 0 c = weight 0 cursor.current + 1)) ∧
    (cursor.advance? = none → cursor.advance = cursor) ∧
    (∀ n, weight 0 (advance^[n] cursor).current =
      min (weight 0 cursor.current + n) (bits.choose distance - 1)) ∧
    (∀ c, Chooses c distance bits →
      (weight 0 cursor.current < weight 0 c ↔ cursor.current.reverse < c.reverse)) ∧
    (∀ id, rank? cursor.current = some id → id = weight 0 cursor.current) ∧
    ∀ id count, binomial? bits distance = some count → id < count →
      rank? (cursor.seek id).current = some id := by
  obtain ⟨hbits, hchooses⟩ := h.chooses hle
  have hcurrent : Chooses cursor.current distance cursor.bits := hbits ▸ hchooses
  refine ⟨hchooses, hbits ▸ isSome_advance?_iff hcurrent, fun next hn => ?_, advance_of_none,
    weight_advance_iterate hle h, fun c hc => weight_lt_weight_iff hchooses hc, fun id => eq_of_rank?,
    fun id count => h.rank?_seek⟩
  obtain ⟨hsame, hnext, hweight⟩ := (advance?_spec hcurrent).1 next hn
  refine ⟨advance_of_some hn, hsame.trans hbits, fun c hc => ⟨fun heq => heq ▸ hweight, fun heq => ?_⟩⟩
  exact weight_injective hc hnext (heq.trans hweight.symm)

/-- Three of nine positions, from the last number but three on: the third step is the last one. -/
theorem advance_enumerates_nearLast :
    3 ≤ 9 ∧ Reached 3 9 ((first 3 9).seek 80) ∧
      rank? ((first 3 9).seek 80).current = some 80 ∧
      weight 0 (advance^[3] ((first 3 9).seek 80)).current = 83 ∧
      (advance^[3] ((first 3 9).seek 80)).advance = advance^[3] ((first 3 9).seek 80) := by
  have hle : 3 ≤ 9 := by decide
  have hseek : Reached 3 9 ((first 3 9).seek 80) := .seek .first 80
  have hcount : binomial? 9 3 = some 84 := by decide
  obtain ⟨-, -, -, -, hsteps, -, hrank, -⟩ := advance_enumerates hle hseek
  have hsought : rank? ((first 3 9).seek 80).current = some 80 :=
    (advance_enumerates hle .first).2.2.2.2.2.2.2 80 84 hcount (by decide)
  have hlast : weight 0 (advance^[3] ((first 3 9).seek 80)).current = 83 := by
    rw [hsteps, ← hrank 80 hsought]
    rfl
  refine ⟨hle, hseek, hsought, hlast, ?_⟩
  have hthree : Reached 3 9 (advance^[3] ((first 3 9).seek 80)) := .advance (.advance (.advance hseek))
  obtain ⟨-, hsome, -, hstays, -⟩ := advance_enumerates hle hthree
  refine hstays (Option.not_isSome_iff_eq_none.mp fun h => ?_)
  rw [hsome, hlast] at h
  exact absurd h (by decide)

end

end MeasuredBoot.Cursor
