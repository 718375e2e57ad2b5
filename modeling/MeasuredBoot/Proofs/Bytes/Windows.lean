import MeasuredBoot.Proofs.Bytes.Hamming

/-!
# Windows of byte strings

A byte string is seen here as the bytes at its offsets (`Bytes.get`), which determine it together with
its size (`ext_get`). A slice reads a window and a splice writes one:

* `get_append`, `get_tabulate`, `get_slice`, `get_splice`: the bytes of a string that is put together;
* `splice_splice`: what is written to a window replaces what was written to it before;
* `splice_append_left`, `splice_append_right`: a window within one part of a string changes that part;
* `slice_splice_of_disjoint`, `slice_splice_of_within`: how a window that was written to shows in
  another one;
* `slice_of_find?`: the window where a marker was found.
-/

namespace MeasuredBoot.Bytes

variable {a b bs patch : ByteArray} {offset length i : Nat}

theorem get_of_size_le (h : bs.size ≤ i) : Bytes.get bs i = 0 := dif_neg (Nat.not_lt.mpr h)

/-- Byte strings of one size with the same bytes are equal. -/
theorem ext_get (hs : a.size = b.size) (h : ∀ i < a.size, Bytes.get a i = Bytes.get b i) : a = b := by
  refine ByteArray.ext_getElem hs fun i ha hb => ?_
  have := h i ha
  rwa [get_eq_getElem ha, get_eq_getElem hb] at this

theorem get_append (a b : ByteArray) (i : Nat) :
    Bytes.get (a ++ b) i = if i < a.size then Bytes.get a i else Bytes.get b (i - a.size) := by
  by_cases hab : i < (a ++ b).size
  · rw [get_eq_getElem hab]
    rw [ByteArray.size_append] at hab
    split
    · rename_i ha
      rw [ByteArray.getElem_append_left ha, get_eq_getElem ha]
    · rename_i ha
      rw [ByteArray.getElem_append_right (by omega), get_eq_getElem (by omega)]
  · rw [get_of_size_le (by omega)]
    rw [ByteArray.size_append] at hab
    rw [if_neg (by omega), get_of_size_le (by omega)]

theorem get_append_left (h : i < a.size) : Bytes.get (a ++ b) i = Bytes.get a i := by
  rw [get_append, if_pos h]

theorem get_append_right (a b : ByteArray) (k : Nat) : Bytes.get (a ++ b) (a.size + k) = Bytes.get b k := by
  rw [get_append, if_neg (by omega), Nat.add_sub_cancel_left]

theorem get_push (bs : ByteArray) (b : UInt8) (i : Nat) :
    Bytes.get (bs.push b) i = if i = bs.size then b else Bytes.get bs i := by
  have hsize : (bs.push b).size = bs.size + 1 := ByteArray.size_push
  by_cases hi : i < (bs.push b).size
  · have hget : (bs.push b)[i] = if h : i < bs.size then bs[i] else b := Array.getElem_push ..
    rw [get_eq_getElem hi, hget]
    split
    · rename_i hlt
      rw [if_neg (Nat.ne_of_lt hlt), get_eq_getElem hlt]
    · rw [if_pos (by omega)]
  · rw [get_of_size_le (by omega), if_neg (by omega), get_of_size_le (by omega)]

theorem get_fold_push (n : Nat) (f : Nat → UInt8) (bs : ByteArray) (i : Nat) :
    Bytes.get (n.fold (fun j _ bs => bs.push (f j)) bs) (bs.size + i) = if i < n then f i else 0 := by
  induction n with
  | zero => exact get_of_size_le (Nat.le_add_right _ _)
  | succ n ih =>
    rw [Nat.fold_succ, get_push, size_fold_push, ih]
    by_cases hi : i = n
    · rw [if_pos (by omega), if_pos (by omega), hi]
    · rw [if_neg (by omega)]
      exact if_congr (by omega) rfl rfl

/-- The bytes of a string that is given byte by byte. -/
theorem get_tabulate (n : Nat) (f : Nat → UInt8) (i : Nat) :
    Bytes.get (tabulate n f) i = if i < n then f i else 0 := by
  have h := get_fold_push n f (ByteArray.emptyWithCapacity n) i
  rwa [show (ByteArray.emptyWithCapacity n).size = 0 from rfl, Nat.zero_add] at h

/-! ## Slices -/

theorem size_slice (h : offset + length ≤ bs.size) : (slice bs offset length).size = length := by
  rw [slice, ByteArray.size_extract]
  omega

theorem get_slice (h : offset + length ≤ bs.size) (hi : i < length) :
    Bytes.get (slice bs offset length) i = Bytes.get bs (offset + i) := by
  have hs := size_slice h
  rw [get_eq_getElem (by omega), get_eq_getElem (by omega)]
  exact ByteArray.getElem_extract _

/-- A slice tells the bytes in its window. -/
theorem get_of_slice (h : offset + length ≤ bs.size) (hslice : slice bs offset length = a) (hi : i < length) :
    Bytes.get bs (offset + i) = Bytes.get a i := by
  rw [← hslice, get_slice h hi]

/-- Slices are equal if the bytes in their windows are. -/
theorem slice_congr (ha : offset + length ≤ a.size) (hb : offset + length ≤ b.size)
    (h : ∀ i < length, Bytes.get a (offset + i) = Bytes.get b (offset + i)) :
    slice a offset length = slice b offset length := by
  refine ext_get (by rw [size_slice ha, size_slice hb]) fun i hi => ?_
  rw [size_slice ha] at hi
  rw [get_slice ha hi, get_slice hb hi, h i hi]

theorem slice_append_left (h : offset + length ≤ a.size) :
    slice (a ++ b) offset length = slice a offset length := by
  have hab : offset + length ≤ (a ++ b).size := by
    rw [ByteArray.size_append]
    omega
  refine ext_get (by rw [size_slice hab, size_slice h]) fun i hi => ?_
  rw [size_slice hab] at hi
  rw [get_slice hab hi, get_slice h hi, get_append_left (by omega)]

theorem slice_append_right (h : offset + length ≤ b.size) :
    slice (a ++ b) (a.size + offset) length = slice b offset length := by
  have hab : a.size + offset + length ≤ (a ++ b).size := by
    rw [ByteArray.size_append]
    omega
  refine ext_get (by rw [size_slice hab, size_slice h]) fun i hi => ?_
  rw [size_slice hab] at hi
  rw [get_slice hab hi, get_slice h hi, Nat.add_assoc, get_append_right]

/-- A slice of a slice is a slice. -/
theorem slice_slice {inner width : Nat} (h : offset + length ≤ bs.size) (hin : inner + width ≤ length) :
    slice (slice bs offset length) inner width = slice bs (offset + inner) width := by
  have hs := size_slice h
  have hin' : inner + width ≤ (slice bs offset length).size := by omega
  have hbs : offset + inner + width ≤ bs.size := by omega
  refine ext_get (by rw [size_slice hin', size_slice hbs]) fun i hi => ?_
  rw [size_slice hin'] at hi
  rw [get_slice hin' hi, get_slice h (by omega), get_slice hbs hi, Nat.add_assoc]

/-! ## Splices -/

theorem size_splice (h : offset + patch.size ≤ bs.size) : (splice bs offset patch).size = bs.size := by
  rw [splice, ByteArray.size_append, ByteArray.size_append, ByteArray.size_extract,
    ByteArray.size_extract]
  omega

theorem get_splice (h : offset + patch.size ≤ bs.size) (i : Nat) :
    Bytes.get (splice bs offset patch) i =
      if offset ≤ i ∧ i < offset + patch.size then Bytes.get patch (i - offset) else Bytes.get bs i := by
  have hfront : (bs.extract 0 offset).size = offset := by
    rw [ByteArray.size_extract]
    omega
  have hback : (bs.extract (offset + patch.size) bs.size).size = bs.size - (offset + patch.size) := by
    rw [ByteArray.size_extract]
    omega
  by_cases hlt : i < bs.size
  · rw [splice, get_append, ByteArray.size_append, get_append, hfront]
    by_cases hi : i < offset
    · rw [if_pos (by omega), if_pos hi, if_neg (by omega), get_eq_getElem (by omega),
        get_eq_getElem hlt, ByteArray.getElem_extract]
      exact getElem_congr_idx (by omega)
    · by_cases hpatch : i < offset + patch.size
      · rw [if_pos hpatch, if_neg hi, if_pos ⟨by omega, hpatch⟩]
      · rw [if_neg hpatch, if_neg (by omega), get_eq_getElem (by omega), get_eq_getElem hlt,
          ByteArray.getElem_extract]
        exact getElem_congr_idx (by omega)
  · rw [get_of_size_le (by rw [size_splice h]; omega), if_neg (by omega), get_of_size_le (by omega)]

/-- A window keeps its bytes if one without a byte in common is written to. -/
theorem slice_splice_of_disjoint (h : offset + patch.size ≤ bs.size) {start width : Nat}
    (hw : start + width ≤ bs.size) (hd : min (start + width) (offset + patch.size) ≤ max start offset) :
    slice (splice bs offset patch) start width = slice bs start width := by
  have hs : start + width ≤ (splice bs offset patch).size := by rwa [size_splice h]
  refine ext_get (by rw [size_slice hs, size_slice hw]) fun i hi => ?_
  rw [size_slice hs] at hi
  rw [get_slice hs hi, get_slice hw hi, get_splice h, if_neg (by omega)]

/-- A window changes in the place of a smaller one that is written to. -/
theorem slice_splice_of_within (h : offset + patch.size ≤ bs.size) {start width : Nat}
    (hw : start + width ≤ bs.size) (hlo : start ≤ offset)
    (hhi : offset + patch.size ≤ start + width) :
    slice (splice bs offset patch) start width = splice (slice bs start width) (offset - start) patch := by
  have hs : start + width ≤ (splice bs offset patch).size := by rwa [size_splice h]
  have hin : offset - start + patch.size ≤ (slice bs start width).size := by
    rw [size_slice hw]
    omega
  refine ext_get (by rw [size_slice hs, size_splice hin, size_slice hw]) fun i hi => ?_
  rw [size_slice hs] at hi
  rw [get_slice hs hi, get_splice h, get_splice hin]
  by_cases hpatch : offset ≤ start + i ∧ start + i < offset + patch.size
  · rw [if_pos hpatch, if_pos (by omega)]
    congr 1
    omega
  · rw [if_neg hpatch, if_neg (by omega), get_slice hw hi]

/-- What is written to a window replaces what was written to it before. -/
theorem splice_splice {other : ByteArray} (h : offset + patch.size ≤ bs.size)
    (hs : other.size = patch.size) :
    splice (splice bs offset patch) offset other = splice bs offset other := by
  have hother : offset + other.size ≤ bs.size := by rwa [hs]
  have hsplice : offset + other.size ≤ (splice bs offset patch).size := by rwa [size_splice h]
  refine ext_get (by rw [size_splice hsplice, size_splice h, size_splice hother]) fun i _ => ?_
  rw [get_splice hsplice, get_splice h, get_splice hother]
  split
  · rfl
  · rw [if_neg (by omega)]

theorem splice_append_left (h : offset + patch.size ≤ a.size) :
    splice (a ++ b) offset patch = splice a offset patch ++ b := by
  have hab : offset + patch.size ≤ (a ++ b).size := by
    rw [ByteArray.size_append]
    omega
  refine ext_get ?_ fun i _ => ?_
  · rw [size_splice hab, ByteArray.size_append, ByteArray.size_append, size_splice h]
  · rw [get_splice hab, get_append, get_append, size_splice h, get_splice h]
    split
    · rw [if_pos (by omega)]
    · rfl

theorem splice_append_right (h : offset + patch.size ≤ b.size) :
    splice (a ++ b) (a.size + offset) patch = a ++ splice b offset patch := by
  have hab : a.size + offset + patch.size ≤ (a ++ b).size := by
    rw [ByteArray.size_append]
    omega
  refine ext_get ?_ fun i _ => ?_
  · rw [size_splice hab, ByteArray.size_append, ByteArray.size_append, size_splice h]
  · rw [get_splice hab, get_append, get_append, get_splice h]
    by_cases ha : i < a.size
    · rw [if_neg (by omega), if_pos ha, if_pos ha]
    · rw [if_neg ha, if_neg ha]
      by_cases hin : offset ≤ i - a.size ∧ i - a.size < offset + patch.size
      · rw [if_pos (by omega), if_pos hin]
        congr 1
        omega
      · rw [if_neg (by omega), if_neg hin]

/-! ## Finding a marker -/

theorem agree_iff {j n : Nat} :
    agree a b i j n = true ↔ ∀ k < n, Bytes.get a (i + k) = Bytes.get b (j + k) := by
  induction n generalizing i j with
  | zero => exact iff_of_true rfl fun k hk => absurd hk (Nat.not_lt_zero k)
  | succ n ih =>
    rw [agree, Bool.and_eq_true, beq_iff_eq, ih]
    constructor
    · rintro ⟨hfirst, hrest⟩ k hk
      cases k with
      | zero => exact hfirst
      | succ k =>
        have hsame := hrest k (Nat.lt_of_succ_lt_succ hk)
        rwa [Nat.add_right_comm, Nat.add_right_comm j] at hsame
    · refine fun h => ⟨h 0 (Nat.zero_lt_succ n), fun k hk => ?_⟩
      rw [Nat.add_right_comm, Nat.add_right_comm j]
      exact h (k + 1) (Nat.succ_lt_succ hk)

/-- A marker occurs where it is the window of its size. -/
theorem occursAt_iff {marker : ByteArray} : occursAt marker bs i = true ↔
    i + marker.size ≤ bs.size ∧ slice bs i marker.size = marker := by
  rw [occursAt, Bool.and_eq_true, decide_eq_true_iff, agree_iff]
  refine and_congr_right fun hin => ?_
  constructor
  · refine fun h => ext_get (size_slice hin) fun k hk => ?_
    rw [size_slice hin] at hk
    have hsame := h k hk
    rw [Nat.zero_add] at hsame
    rw [get_slice hin hk, hsame]
  · intro h k hk
    rw [Nat.zero_add, ← get_slice hin hk, h]

/-- The offset found from `start` on is the first one there. -/
theorem first_of_findFrom {marker : ByteArray} {start n : Nat} (h : findFrom marker bs start n = some i) :
    occursAt marker bs i = true ∧ ∀ j, start ≤ j → j < i → ¬occursAt marker bs j = true := by
  induction n generalizing start with
  | zero => cases h
  | succ n ih =>
    rw [findFrom] at h
    split at h
    · rename_i hoccurs
      obtain rfl := Option.some.inj h
      exact ⟨hoccurs, fun j hle hlt => absurd hlt (Nat.not_lt.mpr hle)⟩
    · rename_i hnot
      obtain ⟨hoccurs, hfirst⟩ := ih h
      refine ⟨hoccurs, fun j hle hlt => ?_⟩
      rcases Nat.eq_or_lt_of_le hle with rfl | hlater
      · exact hnot
      · exact hfirst j hlater hlt

/-- A marker that is found is there. -/
theorem slice_of_find? {marker : ByteArray} (h : find? marker bs = some i) :
    i + marker.size ≤ bs.size ∧ slice bs i marker.size = marker :=
  occursAt_iff.mp (first_of_findFrom h).1

/-- A marker that is found is nowhere before. -/
theorem slice_ne_of_find? {marker : ByteArray} (h : find? marker bs = some i) {j : Nat} (hj : j < i) :
    slice bs j marker.size ≠ marker := by
  have hin := (slice_of_find? h).1
  exact fun hslice => (first_of_findFrom h).2 j (Nat.zero_le j) hj (occursAt_iff.mpr ⟨by omega, hslice⟩)

end MeasuredBoot.Bytes
