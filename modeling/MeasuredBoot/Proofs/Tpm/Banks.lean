import MeasuredBoot.Proofs.Results
import MeasuredBoot.Tpm

/-!
# Banks and their values

The banks of a module that is built, PCR values after one of them was replaced, and the values that
a start leaves behind.

* `PcrValues.get_of_set`: a value is replaced, all others stay;
* `Tpm.mem_algorithms_iff`: the algorithms of choice have banks;
* `Tpm.get_startingValues`: after a start each PCR has its initial value in each bank.
-/

namespace MeasuredBoot

namespace PcrRow

theorem isHash_of_get? {row : PcrRow} {alg : Algorithm} {value : ByteArray}
    (h : row.get? alg = some value) : alg.isHash = true := by
  cases alg <;> first | rfl | cases h

/-- What a row has in the bank of a hash function once banks are allocated: zero bytes, if the bank
is among them or had them before. -/
theorem get?_allocate {row : PcrRow} {algs : List Algorithm} {alg : Algorithm} {size : Nat}
    (hsize : alg.digestSize? = some size)
    (h : alg ∈ algs ∨ row.get? alg = some (Bytes.replicate size 0)) :
    (algs.foldl allocate row).get? alg = some (Bytes.replicate size 0) := by
  have hhash : alg.isHash = true := by rw [Algorithm.isHash, hsize]; rfl
  induction algs generalizing row with
  | nil => exact h.resolve_left List.not_mem_nil
  | cons a rest ih =>
    refine ih ?_
    by_cases ha : alg = a
    · subst ha
      rw [allocate, hsize]
      exact .inr (get?_put_self row _ hhash)
    · refine h.imp (fun hmem => (List.mem_cons.mp hmem).resolve_left ha) fun hrow => ?_
      rw [allocate]
      split
      · rw [get?_put_of_ne row _ ha, hrow]
      · exact hrow

end PcrRow

namespace PcrValues

theorem get_of_getElem? {values : PcrValues} {pcr : UInt8} {alg : Algorithm} {row : PcrRow}
    (h : values[pcr.toNat]? = some row) :
    values.get pcr alg = match row.get? alg with
      | some value => .ok value
      | none => .error (.slotNotInitialized pcr alg) := by
  cases hvalue : row.get? alg <;> simp only [get, h, hvalue]

/-- Replacing a value changes the row of its PCR, where it has to be allocated. -/
theorem of_set {values after : PcrValues} {pcr : UInt8} {alg : Algorithm} {value : ByteArray}
    (h : values.set pcr alg value = .ok after) :
    ∃ row old, values[pcr.toNat]? = some row ∧ row.get? alg = some old ∧
      after = List.set values pcr.toNat (row.put alg value) := by
  rw [set] at h
  split at h
  · cases h
  split at h
  · cases h
  rename_i row hrow
  split at h
  · rename_i old hold
    cases h
    exact ⟨row, old, hrow, hold, rfl⟩
  · cases h

/-- The value of a PCR after one value was replaced. -/
theorem get_of_set {values after : PcrValues} {pcr other : UInt8} {alg alg' : Algorithm}
    {value : ByteArray} (h : values.set pcr alg value = .ok after) :
    after.get other alg' = if other = pcr ∧ alg' = alg then .ok value else values.get other alg' := by
  obtain ⟨row, old, hrow, hold, rfl⟩ := of_set h
  by_cases hpcr : other = pcr
  · subst hpcr
    have hlen : other.toNat < values.length := (List.getElem?_eq_some_iff.mp hrow).1
    have hset : (List.set values other.toNat (row.put alg value))[other.toNat]? =
        some (row.put alg value) := List.getElem?_set_self hlen
    rw [get_of_getElem? hset, get_of_getElem? hrow]
    by_cases halg : alg' = alg
    · rw [if_pos ⟨rfl, halg⟩, halg, row.get?_put_self value (PcrRow.isHash_of_get? hold)]
    · rw [if_neg (halg ·.2), row.get?_put_of_ne value halg]
  · have hne : pcr.toNat ≠ other.toNat := fun h => hpcr (UInt8.toNat_inj.mp h.symm)
    rw [if_neg (hpcr ·.1), get, get, List.getElem?_set_ne hne]

theorem get_allocate {count : Nat} {algs : List Algorithm} {pcr : UInt8} {alg : Algorithm}
    {size : Nat} (hpcr : pcr.toNat < count) (halg : alg ∈ algs)
    (hsize : alg.digestSize? = some size) :
    (allocate count algs).get pcr alg = .ok (Bytes.replicate size 0) := by
  rw [allocate, get_of_getElem? (List.getElem?_replicate_of_lt hpcr),
    PcrRow.get?_allocate hsize (.inl halg)]

end PcrValues

theorem Algorithm.mem_hashes_iff (alg : Algorithm) : alg ∈ hashes ↔ alg.isHash = true := by
  cases alg <;> decide

theorem Algorithm.exists_initialValue {alg : Algorithm} (h : alg.isHash = true)
    (pcr locality : UInt8) : ∃ initial, alg.initialValue pcr locality = .ok initial := by
  obtain ⟨size, hsize⟩ := Option.isSome_iff_exists.mp h
  have hdigest : alg.digestSize = .ok size := by rw [digestSize, hsize]
  rw [initialValue, hdigest]
  by_cases hzero : pcr = 0
  · exact ⟨_, if_pos hzero⟩
  · exact ⟨_, if_neg hzero⟩

/-- The locality only shows in PCR 0. -/
theorem Algorithm.initialValue_of_ne_zero {alg : Algorithm} {pcr : UInt8} {size : Nat}
    (locality : UInt8) (hpcr : pcr ≠ 0) (hsize : alg.digestSize? = some size) :
    alg.initialValue pcr locality = .ok (Bytes.replicate size 0) := by
  have hdigest : alg.digestSize = .ok size := by rw [digestSize, hsize]
  rw [initialValue, hdigest]
  exact if_neg hpcr

namespace Tpm

/-- The banks of a module that is built are the algorithms of choice, all of them hash functions. -/
theorem of_withAlgorithms {algs : List Algorithm} {tpm : Tpm} (h : withAlgorithms algs = .ok tpm) :
    (∀ alg ∈ algs, alg.isHash = true) ∧
      tpm = { algorithms := Algorithm.hashes.filter (algs.contains ·) } := by
  rw [withAlgorithms] at h
  split at h
  · cases h
  rename_i hnone
  cases h
  refine ⟨fun alg hmem => ?_, rfl⟩
  have hno := List.find?_eq_none.mp hnone alg hmem
  rwa [Bool.not_eq_true', Bool.not_eq_false] at hno

theorem mem_algorithms_iff {algs : List Algorithm} {tpm : Tpm} (h : withAlgorithms algs = .ok tpm)
    (alg : Algorithm) : alg ∈ tpm.algorithms ↔ alg ∈ algs := by
  obtain ⟨hhash, rfl⟩ := of_withAlgorithms h
  rw [List.mem_filter, List.contains_iff_mem, Algorithm.mem_hashes_iff]
  exact ⟨And.right, fun hmem => ⟨hhash alg hmem, hmem⟩⟩

/-- Hash functions can have banks. -/
theorem withAlgorithms_eq_ok {algs : List Algorithm} (h : ∀ alg ∈ algs, alg.isHash = true) :
    withAlgorithms algs = .ok { algorithms := Algorithm.hashes.filter (algs.contains ·) } := by
  have hfind : algs.find? (!·.isHash) = none := by
    rw [List.find?_eq_none]
    intro alg hmem
    rw [h alg hmem]
    decide
  rw [withAlgorithms, hfind]

/-- Neither the order nor the repetition of the algorithms of choice matters. -/
theorem withAlgorithms_congr {algs same : List Algorithm} {tpm : Tpm} (h : withAlgorithms algs = .ok tpm)
    (hsame : ∀ alg, alg ∈ same ↔ alg ∈ algs) : withAlgorithms same = .ok tpm := by
  obtain ⟨hhash, rfl⟩ := of_withAlgorithms h
  have hfilter : Algorithm.hashes.filter (same.contains ·) = Algorithm.hashes.filter (algs.contains ·) := by
    refine List.filter_congr fun alg _ => ?_
    rw [Bool.eq_iff_iff, List.contains_iff_mem, List.contains_iff_mem, hsame]
  rw [withAlgorithms_eq_ok fun alg hmem => hhash alg ((hsame alg).mp hmem), hfilter]

/-- A choice of banks that was made once is made again. -/
theorem withAlgorithms_algorithms {algs : List Algorithm} {tpm : Tpm}
    (h : withAlgorithms algs = .ok tpm) : withAlgorithms tpm.algorithms = .ok tpm :=
  withAlgorithms_congr h (mem_algorithms_iff h)

/-- Setting PCR 0 in some banks to the values that it starts from. -/
theorem get_of_foldlM_set {algs : List Algorithm} {locality : UInt8} {values after : PcrValues}
    (h : algs.foldlM (fun values alg => do values.set 0 alg (← alg.initialValue 0 locality)) values =
      .ok after) (pcr : UInt8) (alg : Algorithm) :
    after.get pcr alg =
      if pcr = 0 ∧ alg ∈ algs then alg.initialValue 0 locality else values.get pcr alg := by
  induction algs generalizing values with
  | nil =>
    cases h
    rw [if_neg fun hmem => List.not_mem_nil hmem.2]
  | cons a rest ih =>
    obtain ⟨next, hnext, h⟩ := exists_ok_of_bind h
    obtain ⟨initial, hinitial, hset⟩ := exists_ok_of_bind hnext
    rw [ih h, PcrValues.get_of_set hset]
    by_cases hpcr : pcr = 0
    · by_cases hmem : alg ∈ rest
      · rw [if_pos ⟨hpcr, hmem⟩, if_pos ⟨hpcr, List.mem_cons_of_mem a hmem⟩]
      · rw [if_neg (hmem ·.2)]
        by_cases ha : alg = a
        · rw [if_pos ⟨hpcr, ha⟩, if_pos ⟨hpcr, ha ▸ List.mem_cons_self⟩, ha, hinitial]
        · rw [if_neg (ha ·.2), if_neg fun h => (List.mem_cons.mp h.2).elim ha hmem]
    · simp only [hpcr, false_and, if_false]

/-- After a start each PCR has its initial value in each bank. -/
theorem get_startingValues {algs : List Algorithm} {locality : UInt8} {values : PcrValues}
    {pcr : UInt8} {alg : Algorithm} (h : startingValues algs locality = .ok values)
    (hpcr : pcr.toNat < pcrCount) (halg : alg ∈ algs) (hhash : alg.isHash = true) :
    values.get pcr alg = alg.initialValue pcr locality := by
  obtain ⟨size, hsize⟩ := Option.isSome_iff_exists.mp hhash
  rw [get_of_foldlM_set h]
  by_cases hzero : pcr = 0
  · rw [if_pos ⟨hzero, halg⟩, hzero]
  · rw [if_neg (hzero ·.1), PcrValues.get_allocate hpcr halg hsize,
      Algorithm.initialValue_of_ne_zero locality hzero hsize]

end Tpm

end MeasuredBoot
