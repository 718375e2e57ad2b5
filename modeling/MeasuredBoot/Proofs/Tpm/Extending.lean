import MeasuredBoot.Proofs.Tpm.Banks

/-!
# Extending by a hash function

A hash function has a digest of every message (`Algorithm.hash_eq_ok`), so that extending a PCR by it
never fails (`Algorithm.exists_extendAll`). What is hashed has the digest (`Algorithm.digest?_of_hash`),
and a value of a PCR that is there can be replaced (`Tpm.exists_set`).
-/

namespace MeasuredBoot

namespace Algorithm

theorem hash_eq_ok {alg : Algorithm} (h : alg.isHash = true) (message : ByteArray) :
    alg.hash message = .ok ((alg.digest? message).getD ByteArray.empty) := by
  rw [← alg.isSome_digest? message] at h
  obtain ⟨digest, hdigest⟩ := Option.isSome_iff_exists.mp h
  rw [hash, hdigest]
  rfl

theorem digest?_of_hash {alg : Algorithm} {message digest : ByteArray}
    (h : alg.hash message = .ok digest) : alg.digest? message = some digest := by
  rw [hash] at h
  cases hdigest : alg.digest? message with
  | none =>
    rw [hdigest] at h
    cases h
  | some digest' =>
    rw [hdigest] at h
    exact congrArg some (Except.ok.inj h)

theorem extendAll_append (alg : Algorithm) (old : ByteArray) (xs ys : List ByteArray) :
    alg.extendAll old (xs ++ ys) = alg.extendAll old xs >>= (alg.extendAll · ys) :=
  List.foldlM_append

theorem extendAll_cons (alg : Algorithm) (old digest : ByteArray) (rest : List ByteArray) :
    alg.extendAll old (digest :: rest) = alg.extend old digest >>= (alg.extendAll · rest) :=
  List.foldlM_cons

theorem exists_extendAll {alg : Algorithm} (h : alg.isHash = true) (old : ByteArray)
    (digests : List ByteArray) : ∃ value, alg.extendAll old digests = .ok value := by
  induction digests generalizing old with
  | nil => exact ⟨old, rfl⟩
  | cons digest rest ih =>
    obtain ⟨value, hvalue⟩ := ih ((alg.digest? (old ++ digest)).getD ByteArray.empty)
    refine ⟨value, ?_⟩
    rw [extendAll_cons, extend, hash_eq_ok h, ok_bind, hvalue]

/-- The hash functions can all have banks. -/
theorem id_le_of_isHash {alg : Algorithm} (h : alg.isHash = true) : alg.id ≤ sha512.id := by
  cases alg <;> first | decide | cases h

end Algorithm

/-- A value that is there can be replaced. -/
theorem Tpm.exists_set {values : PcrValues} {pcr : UInt8} {alg : Algorithm}
    (h : (values.get pcr alg).isOk = true) (value : ByteArray) :
    ∃ after, values.set pcr alg value = .ok after := by
  rw [PcrValues.get] at h
  rw [PcrValues.set]
  cases hrow : values[pcr.toNat]? with
  | none =>
    rw [hrow] at h
    cases h
  | some row =>
    rw [hrow] at h
    dsimp only at h ⊢
    cases hget : row.get? alg with
    | none =>
      rw [hget] at h
      cases h
    | some old =>
      have hbank := Algorithm.id_le_of_isHash (PcrRow.isHash_of_get? hget)
      exact ⟨_, if_neg (Nat.not_lt.mpr hbank)⟩

end MeasuredBoot
