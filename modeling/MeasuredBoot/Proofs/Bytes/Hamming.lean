import MeasuredBoot.Bytes.Flip
import Mathlib.Data.List.Sort

/-!
# Bits of byte strings and Hamming distance

A byte string is seen here as its bits (`bit`), which determine it (`ext_bit`). Flipping a list of
existing bits is exclusive or with the parity of the list's counts, so that it is its own inverse:

* `bit_flipBits`: the bits after a list of flips;
* `flipBits_flipBits`: flipping twice restores the byte string;
* `flipBits_differing`, `differing_flipBits`: the byte strings of the same size are, one for one,
  those with an ascending list of bits flipped, and `distance` is the length of that list.
-/

namespace MeasuredBoot.Bytes

/-- Bit `i` of a byte string, unset past the end. -/
def bit (bs : ByteArray) (i : Nat) : Bool := (Bytes.get bs (i / 8)).toNat.testBit (i % 8)

/-- The bits in which two byte strings of one size differ, in ascending order. -/
def differing (a b : ByteArray) : List Nat :=
  (List.range (bitCount a)).filter fun i => bit a i != bit b i

/-- The Hamming distance of two byte strings of one size. -/
def distance (a b : ByteArray) : Nat := (differing a b).length

theorem get_eq_getElem {bs : ByteArray} {i : Nat} (h : i < bs.size) : Bytes.get bs i = bs[i] :=
  dif_pos h

theorem div_lt_size {bs : ByteArray} {i : Nat} (h : i < bitCount bs) : i / 8 < bs.size := by
  rw [bitCount] at h
  omega

/-- Byte strings with the same bits are equal. -/
theorem ext_bit {a b : ByteArray} (hs : a.size = b.size)
    (h : ∀ i < bitCount a, bit a i = bit b i) : a = b := by
  refine ByteArray.ext_getElem hs fun i ha hb => ?_
  refine UInt8.toNat_inj.mp (Nat.eq_of_testBit_eq fun j => ?_)
  by_cases hj : j < 8
  · have := h (8 * i + j) (by rw [bitCount]; omega)
    simp only [bit, show (8 * i + j) / 8 = i by omega, show (8 * i + j) % 8 = j by omega] at this
    rwa [get_eq_getElem ha, get_eq_getElem hb] at this
  · have hlt (x : UInt8) : x.toNat < 2 ^ j :=
      Nat.lt_of_lt_of_le x.toNat_lt (Nat.pow_le_pow_right (by decide) (by omega))
    rw [Nat.testBit_lt_two_pow (hlt _), Nat.testBit_lt_two_pow (hlt _)]

/-! ## Flips -/

/-- The bits of a byte with one bit flipped. -/
theorem testBit_flip (x : UInt8) {j k : Nat} (hj : j < 8) (hk : k < 8) :
    (x ^^^ (1 <<< k.toUInt8)).toNat.testBit j = (x.toNat.testBit j ^^ decide (j = k)) := by
  have hk' : k.toUInt8.toNat % 8 = k := by
    rw [UInt8.toNat_ofNat']
    omega
  rw [UInt8.toNat_xor, Nat.testBit_xor, UInt8.toNat_shiftLeft, hk', Nat.testBit_mod_two_pow,
    Nat.testBit_shiftLeft]
  refine congrArg (Bool.xor _) ?_
  rw [decide_eq_true hj, Bool.true_and, show UInt8.toNat 1 = 1 from rfl]
  by_cases h : k ≤ j
  · rw [decide_eq_true h, Bool.true_and, Bool.eq_iff_iff, Nat.testBit_one_eq_true_iff_self_eq_zero,
      decide_eq_true_iff]
    omega
  · rw [decide_eq_false h, Bool.false_and, decide_eq_false (by omega)]

theorem get_flipBit {bs : ByteArray} {b : Nat} (h : b < bitCount bs) (i : Nat) :
    Bytes.get (flipBit bs b) i =
      if i = b / 8 then Bytes.get bs i ^^^ (1 <<< (b % 8).toUInt8) else Bytes.get bs i := by
  have hb := div_lt_size h
  by_cases hi : i < bs.size
  · rw [get_eq_getElem (by rwa [size_flipBit]), get_eq_getElem hi]
    simp only [flipBit, dif_pos hb, ByteArray.getElem_eq_getElem_data, ByteArray.data_set,
      Array.getElem_set]
    by_cases e : i = b / 8
    · subst e
      rw [if_pos rfl]
    · rw [if_neg (Ne.symm e), if_neg e]
  · rw [if_neg (by omega)]
    simp only [Bytes.get, size_flipBit, dif_neg hi]

theorem bit_flipBit {bs : ByteArray} {b : Nat} (h : b < bitCount bs) (i : Nat) :
    bit (flipBit bs b) i = (bit bs i ^^ decide (i = b)) := by
  have hi := Nat.mod_lt i (show 0 < 8 by decide)
  have hb := Nat.mod_lt b (show 0 < 8 by decide)
  rw [bit, get_flipBit h]
  split
  · rw [testBit_flip _ hi hb, bit]
    exact congrArg (Bool.xor _) (decide_eq_decide.mpr (by omega))
  · rw [decide_eq_false (by omega), Bool.xor_false, bit]

@[simp] theorem bitCount_flipBits (bits : List Nat) (bs : ByteArray) :
    bitCount (flipBits bits bs) = bitCount bs := by
  rw [bitCount, size_flipBits, bitCount]

/-- A bit is flipped as often as it is listed. -/
theorem bit_flipBits {bits : List Nat} {bs : ByteArray} (h : ∀ b ∈ bits, b < bitCount bs)
    (i : Nat) : bit (flipBits bits bs) i = (bit bs i ^^ decide (bits.count i % 2 = 1)) := by
  induction bits generalizing bs with
  | nil => simp [flipBits]
  | cons b rest ih =>
    have hb := h b List.mem_cons_self
    have hrest : ∀ c ∈ rest, c < bitCount (flipBit bs b) := fun c hc => by
      rw [bitCount, size_flipBit, ← bitCount]
      exact h c (List.mem_cons_of_mem _ hc)
    rw [flipBits, List.foldl_cons, ← flipBits, ih hrest, bit_flipBit hb, List.count_cons,
      Bool.xor_assoc]
    refine congrArg (Bool.xor _) ?_
    by_cases e : i = b
    · rw [decide_eq_true e, if_pos (beq_iff_eq.mpr e.symm), Bool.true_xor, ← decide_not]
      exact decide_eq_decide.mpr (by omega)
    · rw [decide_eq_false e, if_neg (fun c => e (beq_iff_eq.mp c).symm), Bool.false_xor, Nat.add_zero]

theorem bit_flipBits_of_nodup {bits : List Nat} {bs : ByteArray} (hd : bits.Nodup)
    (h : ∀ b ∈ bits, b < bitCount bs) (i : Nat) :
    bit (flipBits bits bs) i = (bit bs i ^^ decide (i ∈ bits)) := by
  rw [bit_flipBits h, hd.count]
  by_cases e : i ∈ bits <;> simp [e]

/-- Flipping bits twice restores the byte string. -/
theorem flipBits_flipBits {bits : List Nat} {bs : ByteArray} (h : ∀ b ∈ bits, b < bitCount bs) :
    flipBits bits (flipBits bits bs) = bs := by
  refine ext_bit (by rw [size_flipBits, size_flipBits]) fun i _ => ?_
  rw [bit_flipBits (by rwa [bitCount_flipBits]), bit_flipBits h, Bool.xor_assoc, Bool.xor_self,
    Bool.xor_false]

/-! ## The bits in which byte strings differ -/

@[simp] theorem mem_differing {a b : ByteArray} {i : Nat} :
    i ∈ differing a b ↔ i < bitCount a ∧ bit a i ≠ bit b i := by
  rw [differing, List.mem_filter, List.mem_range, bne_iff_ne]

theorem pairwise_differing (a b : ByteArray) : (differing a b).Pairwise (· < ·) :=
  List.Pairwise.filter _ List.pairwise_lt_range

theorem nodup_of_ascending {bits : List Nat} (h : bits.Pairwise (· < ·)) : bits.Nodup :=
  h.imp Nat.ne_of_lt

/-- Flipping the bits in which a byte string differs from another one gives that one. -/
theorem flipBits_differing {a b : ByteArray} (hs : a.size = b.size) :
    flipBits (differing a b) a = b := by
  refine ext_bit (by rw [size_flipBits, hs]) fun i hi => ?_
  rw [bitCount_flipBits] at hi
  rw [bit_flipBits_of_nodup (nodup_of_ascending (pairwise_differing a b))
    fun j hj => (mem_differing.mp hj).1]
  by_cases e : bit a i = bit b i
  · rw [decide_eq_false fun hm => (mem_differing.mp hm).2 e, Bool.xor_false, e]
  · rw [decide_eq_true (mem_differing.mpr ⟨hi, e⟩), Bool.xor_true]
    exact Bool.not_eq.mpr e

/-- An ascending list of existing bits is the list of bits in which a byte string differs from
itself with these bits flipped. -/
theorem differing_flipBits {bits : List Nat} {bs : ByteArray} (ha : bits.Pairwise (· < ·))
    (h : ∀ b ∈ bits, b < bitCount bs) : differing bs (flipBits bits bs) = bits := by
  refine List.Perm.eq_of_pairwise' (r := (· < ·)) (pairwise_differing _ _) ha
    ((List.perm_ext_iff_of_nodup (nodup_of_ascending (pairwise_differing _ _))
      (nodup_of_ascending ha)).mpr fun i => ?_)
  rw [mem_differing, bit_flipBits_of_nodup (nodup_of_ascending ha) h]
  constructor
  · rintro ⟨-, hne⟩
    by_contra hi
    rw [decide_eq_false hi, Bool.xor_false] at hne
    exact hne rfl
  · intro hi
    refine ⟨h i hi, ?_⟩
    rw [decide_eq_true hi, Bool.xor_true]
    exact fun e => Bool.not_ne_self _ e.symm

theorem distance_flipBits {bits : List Nat} {bs : ByteArray} (ha : bits.Pairwise (· < ·))
    (h : ∀ b ∈ bits, b < bitCount bs) : distance bs (flipBits bits bs) = bits.length := by
  rw [distance, differing_flipBits ha h]

@[simp] theorem distance_self (bs : ByteArray) : distance bs bs = 0 := by
  rw [distance, List.length_eq_zero_iff, List.eq_nil_iff_forall_not_mem]
  exact fun i hi => (mem_differing.mp hi).2 rfl

/-- Only the byte string itself is at distance zero. -/
theorem eq_of_distance_eq_zero {a b : ByteArray} (hs : a.size = b.size) (h : distance a b = 0) :
    a = b := by
  rw [← flipBits_differing hs, List.eq_nil_of_length_eq_zero h]
  rfl

end MeasuredBoot.Bytes
