import MeasuredBoot.Proofs.Bytes.Windows

/-!
# Byte strings as numbers

The number of a byte string in little-endian form has the bits of the byte string (`testBit_word`), so
that the byte strings of one size are, one for one, the numbers below a power of two (`ofWord_word`,
`word_ofWord`). Flips are exclusive or with a mask on both sides:

* `word_flipBits`: the number of a byte string after flips;
* `distance_eq_wordDistance`: byte strings are as far apart as their numbers are.
-/

namespace MeasuredBoot.Bytes

/-- The number with the bits of a list set; a bit that is listed twice is unset again. -/
def mask (bits : List Nat) : Nat := bits.foldr (fun i m => 1 <<< i ^^^ m) 0

/-- The number of the low `bits` bits in which two numbers differ. -/
def wordDistance (bits a b : Nat) : Nat :=
  ((List.range bits).filter fun i => a.testBit i != b.testBit i).length

/-! ## The bits of words -/

theorem bit_add (bs : ByteArray) (k : Nat) {j : Nat} (hj : j < 8) :
    bit bs (8 * k + j) = (Bytes.get bs k).toNat.testBit j := by
  rw [bit, show (8 * k + j) / 8 = k by omega, show (8 * k + j) % 8 = j by omega]

theorem testBit_word (bs : ByteArray) (offset width i : Nat) :
    (word bs offset width).testBit i = (decide (i < 8 * width) && bit bs (8 * offset + i)) := by
  induction width generalizing offset i with
  | zero => rw [word, Nat.zero_testBit, Nat.mul_zero, decide_eq_false (by omega), Bool.false_and]
  | succ width ih =>
    rw [word, Nat.add_comm, show 256 = 2 ^ 8 from rfl,
      Nat.testBit_two_pow_mul_add _ (Bytes.get bs offset).toNat_lt]
    by_cases hi : i < 8
    · rw [if_pos hi, bit_add bs offset hi, decide_eq_true (by omega), Bool.true_and]
    · rw [if_neg hi, ih, show 8 * (offset + 1) + (i - 8) = 8 * offset + i by omega]
      exact congrArg (· && _) (decide_eq_decide.mpr (by omega))

theorem word_lt (bs : ByteArray) (offset width : Nat) : word bs offset width < 1 <<< (8 * width) := by
  rw [Nat.one_shiftLeft]
  refine Nat.lt_pow_two_of_testBit _ fun i hi => ?_
  rw [testBit_word, decide_eq_false (by omega), Bool.false_and]

/-- A number is made of the bytes in its window. -/
theorem word_congr {a b : ByteArray} {i j width : Nat}
    (h : ∀ k < width, Bytes.get a (i + k) = Bytes.get b (j + k)) : word a i width = word b j width := by
  induction width generalizing i j with
  | zero => rfl
  | succ width ih =>
    have hrest : word a (i + 1) width = word b (j + 1) width := by
      refine ih fun k hk => ?_
      have hsame := h (k + 1) (Nat.succ_lt_succ hk)
      rwa [← Nat.add_assoc, ← Nat.add_assoc, Nat.add_right_comm, Nat.add_right_comm j] at hsame
    have hfirst := h 0 (Nat.zero_lt_succ width)
    rw [Nat.add_zero, Nat.add_zero] at hfirst
    rw [word, word, hfirst, hrest]

theorem word_slice {bs : ByteArray} {offset width : Nat} (h : offset + width ≤ bs.size) :
    word (slice bs offset width) 0 width = word bs offset width :=
  word_congr fun k hk => by rw [Nat.zero_add, get_slice h hk]

@[simp] theorem size_ofWord (value width : Nat) : (ofWord value width).size = width := by
  induction width generalizing value with
  | zero => rfl
  | succ width ih =>
    rw [ofWord, ByteArray.size_append, ih, ByteArray.size_push]
    exact Nat.add_comm 1 width

@[simp] theorem bitCount_ofWord (value width : Nat) : bitCount (ofWord value width) = 8 * width := by
  rw [bitCount, size_ofWord]

theorem bit_ofWord (value width i : Nat) :
    bit (ofWord value width) i = (decide (i < 8 * width) && value.testBit i) := by
  induction width generalizing value i with
  | zero =>
    rw [bit, get_of_size_le (Nat.zero_le _), decide_eq_false (by omega), Bool.false_and]
    exact Nat.zero_testBit _
  | succ width ih =>
    have hhead : (ByteArray.empty.push value.toUInt8).size = 1 := rfl
    rw [ofWord, bit, get_append, hhead]
    by_cases hi : i < 8
    · rw [if_pos (by omega), show i / 8 = 0 by omega, show i % 8 = i by omega,
        decide_eq_true (by omega), Bool.true_and]
      show value.toUInt8.toNat.testBit i = _
      rw [UInt8.toNat_ofNat', Nat.testBit_mod_two_pow, decide_eq_true hi, Bool.true_and]
    · have hrest := ih (value / 256) (i - 8)
      rw [bit, show (i - 8) / 8 = i / 8 - 1 by omega, show (i - 8) % 8 = i % 8 by omega,
        show value / 256 = value / 2 ^ 8 from rfl, Nat.testBit_div_two_pow,
        show i - 8 + 8 = i by omega] at hrest
      rw [if_neg (by omega), show value / 256 = value / 2 ^ 8 from rfl, hrest]
      exact congrArg (· && _) (decide_eq_decide.mpr (by omega))

/-- The low bytes of a number have what is left of it below a power of two. -/
theorem word_ofWord (value width : Nat) :
    word (ofWord value width) 0 width = value % (1 <<< (8 * width)) := by
  refine Nat.eq_of_testBit_eq fun i => ?_
  rw [testBit_word, Nat.mul_zero, Nat.zero_add, bit_ofWord, Nat.one_shiftLeft, Nat.testBit_mod_two_pow,
    ← Bool.and_assoc, Bool.and_self]

/-- A byte string is that of its number. -/
theorem ofWord_word {bs : ByteArray} {width : Nat} (h : bs.size = width) :
    ofWord (word bs 0 width) width = bs := by
  refine ext_bit (by rw [size_ofWord, h]) fun i hi => ?_
  rw [bitCount_ofWord] at hi
  rw [bit_ofWord, testBit_word, Nat.mul_zero, Nat.zero_add, decide_eq_true hi, Bool.true_and,
    Bool.true_and]

/-! ## Words in a window -/

theorem bit_splice {bs patch : ByteArray} {offset : Nat} (h : offset + patch.size ≤ bs.size) (i : Nat) :
    bit (splice bs offset patch) i =
      if 8 * offset ≤ i ∧ i < 8 * (offset + patch.size) then bit patch (i - 8 * offset) else bit bs i := by
  rw [bit, get_splice h]
  by_cases hi : 8 * offset ≤ i ∧ i < 8 * (offset + patch.size)
  · rw [if_pos (by omega), if_pos hi, bit, show (i - 8 * offset) / 8 = i / 8 - offset by omega,
      show (i - 8 * offset) % 8 = i % 8 by omega]
  · rw [if_neg (by omega), if_neg hi, bit]

/-- The low bytes of a number are those in front. -/
theorem slice_ofWord {value size width : Nat} (h : width ≤ size) :
    slice (ofWord value size) 0 width = ofWord value width := by
  have hin : 0 + width ≤ (ofWord value size).size := by
    rwa [size_ofWord, Nat.zero_add]
  refine ext_bit (by rw [size_slice hin, size_ofWord]) fun i hi => ?_
  rw [bitCount, size_slice hin] at hi
  rw [bit, get_slice hin (by omega), Nat.zero_add, ← bit, bit_ofWord, bit_ofWord, decide_eq_true hi,
    decide_eq_true (by omega)]

/-- Writing the low bytes of a word that has no others. -/
theorem splice_ofWord {old value size width : Nat} (hw : width ≤ size) (hold : old < 1 <<< (8 * width)) :
    splice (ofWord old size) 0 (ofWord value width) = ofWord (value % (1 <<< (8 * width))) size := by
  have hin : 0 + (ofWord value width).size ≤ (ofWord old size).size := by
    rwa [size_ofWord, size_ofWord, Nat.zero_add]
  rw [Nat.one_shiftLeft] at hold
  refine ext_bit (by rw [size_splice hin, size_ofWord, size_ofWord]) fun i hi => ?_
  rw [bitCount, size_splice hin, size_ofWord] at hi
  rw [bit_splice hin, size_ofWord, bit_ofWord, bit_ofWord, bit_ofWord, Nat.mul_zero, Nat.sub_zero,
    Nat.one_shiftLeft, Nat.testBit_mod_two_pow, Nat.zero_add, decide_eq_true hi, Bool.true_and]
  by_cases hlow : i < 8 * width
  · rw [if_pos ⟨Nat.zero_le i, hlow⟩, Bool.true_and]
  · rw [if_neg fun h => hlow h.2, decide_eq_false hlow, Bool.false_and,
      Nat.testBit_lt_two_pow (Nat.lt_of_lt_of_le hold (Nat.pow_le_pow_right (by decide) (by omega))),
      Bool.and_false]

/-! ## Flips and distances -/

theorem testBit_mask (bits : List Nat) (i : Nat) :
    (mask bits).testBit i = decide (bits.count i % 2 = 1) := by
  induction bits with
  | nil => rw [mask, List.foldr_nil, Nat.zero_testBit, List.count_nil, decide_eq_false (by omega)]
  | cons b rest ih =>
    rw [mask, List.foldr_cons, ← mask, Nat.testBit_xor, ih, Nat.one_shiftLeft, Nat.testBit_two_pow,
      List.count_cons]
    by_cases hb : b = i
    · rw [decide_eq_true hb, if_pos (beq_iff_eq.mpr hb), Bool.true_xor, ← decide_not]
      exact decide_eq_decide.mpr (by omega)
    · rw [decide_eq_false hb, if_neg (fun h => hb (beq_iff_eq.mp h)), Bool.false_xor, Nat.add_zero]

theorem distance_le (a b : ByteArray) : distance a b ≤ bitCount a :=
  (List.length_filter_le _ _).trans (Nat.le_of_eq List.length_range)

theorem wordDistance_self (bits a : Nat) : wordDistance bits a a = 0 := by
  rw [wordDistance, List.length_eq_zero_iff, List.filter_eq_nil_iff]
  intro i _
  rw [bne_self_eq_false]
  exact Bool.false_ne_true

/-- Flips are exclusive or with a mask. -/
theorem word_flipBits {bits : List Nat} {bs : ByteArray} {width : Nat} (hs : bs.size = width)
    (h : ∀ b ∈ bits, b < 8 * width) :
    word (flipBits bits bs) 0 width = word bs 0 width ^^^ mask bits := by
  have hbits : ∀ b ∈ bits, b < bitCount bs := by rwa [bitCount, hs]
  refine Nat.eq_of_testBit_eq fun i => ?_
  rw [Nat.testBit_xor, testBit_word, testBit_word, testBit_mask, Nat.mul_zero, Nat.zero_add,
    bit_flipBits hbits]
  by_cases hi : i < 8 * width
  · rw [decide_eq_true hi, Bool.true_and, Bool.true_and]
  · have hcount : bits.count i = 0 := List.count_eq_zero.mpr fun hmem => hi (h i hmem)
    rw [decide_eq_false hi, hcount]
    rfl

theorem distance_eq_wordDistance {a b : ByteArray} {width : Nat} (ha : a.size = width) :
    distance a b = wordDistance (8 * width) (word a 0 width) (word b 0 width) := by
  rw [distance, differing, wordDistance, bitCount, ha]
  refine congrArg List.length (List.filter_congr fun i hi => ?_)
  rw [testBit_word, testBit_word, Nat.mul_zero, Nat.zero_add, decide_eq_true (List.mem_range.mp hi),
    Bool.true_and, Bool.true_and]

end MeasuredBoot.Bytes
