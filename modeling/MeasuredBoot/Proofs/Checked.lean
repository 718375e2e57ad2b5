import MeasuredBoot.Proofs.Bytes.Words
import MeasuredBoot.Proofs.Results

/-!
# Checked computations

The library counts in natural numbers, and its windows are cut short at the end of the bytes. A machine counts
in 64-bit words, which wrap around, and has no bytes past the end. A checked computation takes the steps of a
machine one by one, and stops with a `Fault` at a step that goes wrong. That it is `Checked.faultless` of
a computation of the library says that no step does, and that both come to the same.

* `Checked.add_toUInt64`, `Checked.mul_toUInt64`: sums and products that are words;
* `Checked.exists_plus?_le_iff`, `Checked.minus?_getD`: sums and differences that need not be words;
* `Checked.window_eq`, `Checked.rest_eq`, `Checked.overwrite_eq`: windows that lie within the bytes;
* `Checked.entries_slice`: entries that are cut off one after the other are those at the multiples of their width.
-/

namespace MeasuredBoot

/-- Why a checked computation stops. -/
inductive Fault (ε : Type) where
  /-- A sum, a product or a difference is no word. -/
  | wraps
  /-- A window does not lie within the bytes. -/
  | outOfBounds
  /-- The bytes end within an entry that was counted, or within a range that lies in them. -/
  | cutShort
  /-- A failure that the computation is to report. -/
  | reported (e : ε)

/-- A computation that stops at the first step that goes wrong. -/
abbrev Checked (ε α : Type) := Except (Fault ε) α

namespace Checked

variable {ε α β : Type} {bs : ByteArray} {offset width : Nat}

/-- A computation of which no step goes wrong. -/
def faultless (x : Except ε α) : Checked ε α := x.mapError .reported

/-- No step of a list goes wrong if none of its elements does. -/
theorem mapM_eq_faultless {f : α → Checked ε β} {g : α → Except ε β} (h : ∀ a, f a = faultless (g a))
    (xs : List α) : xs.mapM f = faultless (xs.mapM g) := by
  induction xs with
  | nil => rfl
  | cons x rest ih =>
    rw [List.mapM_cons, List.mapM_cons, h, ih]
    cases g x with
    | error e => rfl
    | ok y => cases rest.mapM g <;> rfl

/-! ## Words -/

/-- The sum of two words. -/
def add (a b : UInt64) : Checked ε UInt64 :=
  if a.toNat + b.toNat < UInt64.size then .ok (a + b) else .error .wraps

/-- The product of two words. -/
def mul (a b : UInt64) : Checked ε UInt64 :=
  if a.toNat * b.toNat < UInt64.size then .ok (a * b) else .error .wraps

/-- The difference of two words. -/
def sub (a b : UInt64) : Checked ε UInt64 := if b ≤ a then .ok (a - b) else .error .wraps

/-- The difference of two words, which need not have one. -/
def minus? (a b : UInt64) : Option UInt64 := if b ≤ a then some (a - b) else none

/-- The sum of two words, which need not be one. -/
def plus? (a b : UInt64) : Option UInt64 := if a.toNat + b.toNat < UInt64.size then some (a + b) else none

theorem add_toUInt64 {m n : Nat} (h : m + n < UInt64.size) :
    (add m.toUInt64 n.toUInt64 : Checked ε UInt64) = .ok (m + n).toUInt64 := by
  have hm : m.toUInt64.toNat = m := UInt64.toNat_ofNat_of_lt' (by omega)
  have hn : n.toUInt64.toNat = n := UInt64.toNat_ofNat_of_lt' (by omega)
  rw [add, hm, hn, if_pos h]
  exact congrArg _ (UInt64.ofNat_add m n).symm

theorem mul_toUInt64 {m n : Nat} (hm : m < UInt64.size) (hn : n < UInt64.size) (h : m * n < UInt64.size) :
    (mul m.toUInt64 n.toUInt64 : Checked ε UInt64) = .ok (m * n).toUInt64 := by
  rw [mul, UInt64.toNat_ofNat_of_lt' hm, UInt64.toNat_ofNat_of_lt' hn, if_pos h]
  exact congrArg _ (UInt64.ofNat_mul m n).symm

theorem toUInt64_le_iff {m n : Nat} (hm : m < UInt64.size) (hn : n < UInt64.size) :
    m.toUInt64 ≤ n.toUInt64 ↔ m ≤ n := by
  rw [UInt64.le_iff_toNat_le, UInt64.toNat_ofNat_of_lt' hm, UInt64.toNat_ofNat_of_lt' hn]

theorem toUInt64_lt_iff {m n : Nat} (hm : m < UInt64.size) (hn : n < UInt64.size) :
    m.toUInt64 < n.toUInt64 ↔ m < n := by
  rw [UInt64.lt_iff_toNat_lt, UInt64.toNat_ofNat_of_lt' hm, UInt64.toNat_ofNat_of_lt' hn]

theorem sub_toUInt64 {m n : Nat} (hm : m < UInt64.size) (h : n ≤ m) :
    (sub m.toUInt64 n.toUInt64 : Checked ε UInt64) = .ok (m - n).toUInt64 := by
  rw [sub, if_pos ((toUInt64_le_iff (by omega) hm).mpr h)]
  exact congrArg _ (UInt64.ofNat_sub h).symm

theorem minus?_eq (a b : UInt64) :
    minus? a b = if b.toNat ≤ a.toNat then some (a.toNat - b.toNat).toUInt64 else none := by
  rw [minus?]
  by_cases h : b.toNat ≤ a.toNat
  · have hle : b ≤ a := UInt64.le_iff_toNat_le.mpr h
    rw [if_pos hle, if_pos h, ← UInt64.toNat_sub_of_le _ _ hle]
    exact congrArg some (UInt64.ofNat_toNat).symm
  · rw [if_neg (mt UInt64.le_iff_toNat_le.mp h), if_neg h]

/-- A difference that is held at zero is that of natural numbers. -/
theorem minus?_getD (a b : UInt64) : (minus? a b).getD 0 = (a.toNat - b.toNat).toUInt64 := by
  rw [minus?_eq]
  split
  · rfl
  · rw [Nat.sub_eq_zero_of_le (by omega)]
    rfl

/-- Whether a sum is a word that is no larger than another one. -/
theorem exists_plus?_le_iff {a b : UInt64} {n : Nat} (hn : n < UInt64.size) :
    (∃ sum ∈ plus? a b, sum ≤ n.toUInt64) ↔ a.toNat + b.toNat ≤ n := by
  have hword (h : a.toNat + b.toNat < UInt64.size) : a + b ≤ n.toUInt64 ↔ a.toNat + b.toNat ≤ n := by
    rw [UInt64.le_iff_toNat_le, UInt64.toNat_add, Nat.mod_eq_of_lt h, UInt64.toNat_ofNat_of_lt' hn]
  constructor
  · rintro ⟨sum, hsum, hle⟩
    obtain ⟨hlt, heq⟩ := Option.ite_none_right_eq_some.mp hsum
    obtain rfl := Option.some.inj heq
    exact (hword hlt).mp hle
  · intro h
    exact ⟨a + b, if_pos (by omega), (hword (by omega)).mpr h⟩

theorem min_toUInt64 {m n : Nat} (hm : m < UInt64.size) (hn : n < UInt64.size) :
    min m.toUInt64 n.toUInt64 = (min m n).toUInt64 := by
  refine UInt64.toNat_inj.mp ?_
  rw [UInt64.toNat_min, UInt64.toNat_ofNat_of_lt' hm, UInt64.toNat_ofNat_of_lt' hn,
    UInt64.toNat_ofNat_of_lt' (by omega)]

/-- A comparison with a bound is the same for words. -/
theorem ite_lt_toUInt64 {m n : Nat} (hm : m < UInt64.size) (hn : n < UInt64.size) :
    (if m.toUInt64 < n.toUInt64 then some m.toUInt64 else none) =
      (if m < n then some m else none).map Nat.toUInt64 := by
  have hlt := toUInt64_lt_iff hm hn
  split <;> simp_all

/-! ## Windows -/

/-- The bytes from one offset up to another one. -/
def window (bs : ByteArray) (first stop : UInt64) : Checked ε ByteArray :=
  if first ≤ stop ∧ stop.toNat ≤ bs.size then .ok (Bytes.slice bs first.toNat (stop - first).toNat)
  else .error .outOfBounds

/-- The bytes from an offset on. -/
def rest (bs : ByteArray) (first : UInt64) : Checked ε ByteArray :=
  if first.toNat ≤ bs.size then .ok (Bytes.slice bs first.toNat (bs.size - first.toNat))
  else .error .outOfBounds

/-- The first `width` bytes, and the others. -/
def cut (width : Nat) (bs : ByteArray) : Checked ε (ByteArray × ByteArray) :=
  if width ≤ bs.size then .ok (Bytes.slice bs 0 width, Bytes.slice bs width (bs.size - width))
  else .error .cutShort

/-- A buffer with its first `count` bytes replaced, by as many. -/
def overwrite (buffer : ByteArray) (count : UInt64) (bytes : ByteArray) : Checked ε ByteArray :=
  if count.toNat ≤ buffer.size ∧ bytes.size = count.toNat then .ok (Bytes.splice buffer 0 bytes)
  else .error .outOfBounds

/-- Entries of `width` bytes, cut off the front of the bytes one after the other. -/
def entries (width : Nat) (decode : ByteArray → α) : (count : Nat) → (bs : ByteArray) → Checked ε (List α)
  | 0, _ => .ok []
  | count + 1, bs => do
    let (raw, others) ← cut width bs
    return decode raw :: (← entries width decode count others)

theorem window_eq (h : offset + width ≤ bs.size) (hsize : bs.size < UInt64.size) :
    (window bs offset.toUInt64 (offset + width).toUInt64 : Checked ε ByteArray) =
      .ok (Bytes.slice bs offset width) := by
  have hfirst : offset.toUInt64.toNat = offset := UInt64.toNat_ofNat_of_lt' (by omega)
  have hstop : (offset + width).toUInt64.toNat = offset + width := UInt64.toNat_ofNat_of_lt' (by omega)
  have hle : offset.toUInt64 ≤ (offset + width).toUInt64 :=
    (toUInt64_le_iff (by omega) (by omega)).mpr (Nat.le_add_right ..)
  rw [window, UInt64.toNat_sub_of_le _ _ hle, hfirst, hstop, if_pos ⟨hle, h⟩, Nat.add_sub_cancel_left]

theorem rest_eq (h : offset ≤ bs.size) (hsize : bs.size < UInt64.size) :
    (rest bs offset.toUInt64 : Checked ε ByteArray) = .ok (Bytes.slice bs offset (bs.size - offset)) := by
  rw [rest, UInt64.toNat_ofNat_of_lt' (by omega), if_pos h]

theorem overwrite_eq {buffer bytes : ByteArray} {count : Nat} (hcount : count < UInt64.size)
    (hbuffer : count ≤ buffer.size) (hbytes : bytes.size = count) :
    (overwrite buffer count.toUInt64 bytes : Checked ε ByteArray) = .ok (Bytes.splice buffer 0 bytes) := by
  rw [overwrite, UInt64.toNat_ofNat_of_lt' hcount, if_pos ⟨hbuffer, hbytes⟩]

/-- Cutting the bytes from an offset on is cutting there. -/
theorem cut_slice (h : offset + width ≤ bs.size) :
    (cut width (Bytes.slice bs offset (bs.size - offset)) : Checked ε (ByteArray × ByteArray)) =
      .ok (Bytes.slice bs offset width, Bytes.slice bs (offset + width) (bs.size - (offset + width))) := by
  have hsize : (Bytes.slice bs offset (bs.size - offset)).size = bs.size - offset :=
    Bytes.size_slice (by omega)
  rw [cut, hsize, if_pos (by omega), Bytes.slice_slice (by omega) (by omega),
    Bytes.slice_slice (by omega) (by omega), Nat.add_zero, Nat.sub_sub]

/-- Entries that are cut off one after the other are those at the multiples of their width. -/
theorem entries_slice (decode : ByteArray → α) (decodeAt : Nat → α)
    (hdecode : ∀ offset, offset + width ≤ bs.size → decode (Bytes.slice bs offset width) = decodeAt offset)
    {count : Nat} (h : offset + width * count ≤ bs.size) :
    (entries width decode count (Bytes.slice bs offset (bs.size - offset)) : Checked ε (List α)) =
      .ok ((List.range count).map fun i => decodeAt (offset + width * i)) := by
  -- Each entry that is cut off moves the offset of the bytes that are left.
  induction count generalizing offset with
  | zero => rfl
  | succ count ih =>
    rw [Nat.mul_succ] at h
    rw [entries, cut_slice (by omega), ok_bind]
    dsimp only
    rw [ih (by omega), ok_bind, hdecode offset (by omega), List.range_succ_eq_map, List.map_cons, List.map_map]
    have hplace (i : Nat) : offset + width + width * i = offset + width * (i + 1) := by
      rw [Nat.mul_succ]
      omega
    simp only [hplace, Function.comp_def, Nat.mul_zero, Nat.add_zero]
    rfl

end Checked

end MeasuredBoot
