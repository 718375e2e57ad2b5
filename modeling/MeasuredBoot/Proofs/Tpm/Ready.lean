import MeasuredBoot.Proofs.Tpm.Bookkeeping
import MeasuredBoot.Proofs.Tpm.Extending

/-!
# Modules that take every measurement

A module that was started and is not closed takes every measurement into a PCR that it has: the digests have
the size of their banks, and each of these has a value to extend.

* `Tpm.Ready`: such a module;
* `Tpm.exists_initLazy`, `Tpm.exists_ready`: a start makes it;
* `Tpm.Ready.exists_applyAll`: it takes the commands of a measurement.
-/

namespace MeasuredBoot

namespace Tpm

/-- An open module that was started, with PCR values that its event log explains. -/
structure Ready (tpm : Tpm) : Prop where
  balanced : tpm.Balanced
  started : tpm.locality.isSome = true
  finished_eq : tpm.finished = false

/-- The values of PCR 0 that a start sets are those of banks that were allocated before. -/
theorem exists_foldlM_set {algs : List Algorithm} {values : PcrValues} (locality : UInt8)
    (h : ∀ alg ∈ algs, alg.isHash = true ∧ (values.get 0 alg).isOk = true) : ∃ after,
    algs.foldlM (fun values alg => do values.set 0 alg (← alg.initialValue 0 locality)) values = .ok after := by
  induction algs generalizing values with
  | nil => exact ⟨values, rfl⟩
  | cons alg rest ih =>
    obtain ⟨⟨hhash, hget⟩, hrest⟩ := List.forall_mem_cons.mp h
    obtain ⟨initial, hinitial⟩ := Algorithm.exists_initialValue hhash 0 locality
    obtain ⟨next, hset⟩ := exists_set hget initial
    obtain ⟨after, hafter⟩ := ih fun other hother => by
      refine ⟨(hrest other hother).1, ?_⟩
      rw [PcrValues.get_of_set hset]
      split
      · rfl
      · exact (hrest other hother).2
    refine ⟨after, ?_⟩
    rw [List.foldlM_cons, hinitial, ok_bind, hset, ok_bind, hafter]

theorem exists_startingValues {algs : List Algorithm} (h : ∀ alg ∈ algs, alg.isHash = true)
    (locality : UInt8) : ∃ values, startingValues algs locality = .ok values := by
  refine exists_foldlM_set locality fun alg halg => ⟨h alg halg, ?_⟩
  obtain ⟨size, hsize⟩ := Option.isSome_iff_exists.mp (h alg halg)
  rw [PcrValues.get_allocate (show (0 : UInt8).toNat < pcrCount by decide) halg hsize]
  rfl

variable {tpm : Tpm}

/-- An open module that was not started can be started. -/
theorem exists_initLazy (h : ∀ alg ∈ tpm.algorithms, alg.isHash = true) (hnone : tpm.locality = none)
    (hopen : tpm.finished = false) (locality : UInt8) (cause : Coordinates) :
    ∃ pcrs, startingValues tpm.algorithms locality = .ok pcrs ∧ tpm.initLazy locality cause =
      ({ tpm with
          pcrs, locality := some locality, commandLog := tpm.commandLog ++ [⟨.init locality, cause⟩] },
        .ok ()) := by
  obtain ⟨pcrs, hpcrs⟩ := exists_startingValues h locality
  have hstart : tpm.start locality = .ok { tpm with pcrs, locality := some locality } :=
    start_eq_ok_iff.mpr ⟨hnone, pcrs, hpcrs, rfl⟩
  have happly := (applyAll_singleton tpm (.init locality)).trans hstart
  refine ⟨pcrs, hpcrs, ?_⟩
  rw [initLazy, hnone]
  exact send_of_applyAll cause happly hopen

theorem exists_ready (h : tpm.Balanced) (hnone : tpm.locality = none) (hopen : tpm.finished = false)
    (locality : UInt8) (cause : Coordinates) :
    ∃ after, tpm.initLazy locality cause = (after, .ok ()) ∧ after.Ready := by
  obtain ⟨pcrs, hpcrs, hinit⟩ := exists_initLazy h.isHash hnone hopen locality cause
  have hbalanced := h.start (start_eq_ok_iff.mpr ⟨hnone, pcrs, hpcrs, rfl⟩)
  exact ⟨_, hinit, hbalanced.relog _ _, rfl, hopen⟩

namespace Ready

variable (record : MeasuredData) {kind : EventKind} {pcr : UInt8} (bytes : ByteArray) (description : String)

theorem isOk_get (h : tpm.Ready) (hpcr : pcr.toNat < pcrCount) {alg : Algorithm}
    (halg : alg ∈ tpm.algorithms) : (tpm.pcrs.get pcr alg).isOk = true := by
  obtain ⟨locality, hlocality⟩ := Option.isSome_iff_exists.mp h.started
  obtain ⟨_, value, -, -, hget⟩ := h.balanced.accounts locality hlocality pcr alg hpcr halg
  rw [show tpm.pcrs.get pcr alg = .ok value from hget]
  rfl

/-- A measurement in one bank. -/
theorem exists_entries {alg : Algorithm} (h : tpm.Ready) (hpcr : kind = .extend → pcr.toNat < pcrCount)
    (halg : alg ∈ tpm.algorithms) :
    ∃ after, tpm.applyAll (record.entries kind pcr bytes description alg) = .ok after := by
  cases kind with
  | informational => exact ⟨_, rfl⟩
  | extend =>
    have hhash := h.balanced.isHash alg halg
    have hsome := h.isOk_get (hpcr rfl) halg
    obtain ⟨old, hold⟩ := exists_ok_of_isOk hsome
    let digest := (record.event .extend pcr bytes description alg).digest
    obtain ⟨pcrs, hset⟩ := exists_set hsome ((alg.digest? (old ++ digest)).getD ByteArray.empty)
    have hextend : tpm.extend pcr alg digest = .ok { tpm with pcrs } :=
      extend_eq_ok_iff.mpr ⟨old, _, pcrs, record.digestSize?_event .extend pcr bytes description hhash, hold,
        Algorithm.hash_eq_ok hhash _, hset, rfl⟩
    exact ⟨_, bind_eq_ok_iff.mpr ⟨_, hextend, rfl⟩⟩

variable {record bytes description} in
theorem of_applyAll {after : Tpm} {algs : List Algorithm} (h : tpm.Ready)
    (happly : tpm.applyAll (algs.flatMap (record.entries kind pcr bytes description)) = .ok after) :
    after.Ready := by
  have hlocality := locality_of_applyAll happly (record.init_not_mem_entries kind pcr bytes description algs)
  exact ⟨(h.balanced.measure happly).1, hlocality ▸ h.started,
    (follows_of_applyAll happly).finished_eq.trans h.finished_eq⟩

/-- A measurement in several banks. The induction is on the banks that are left. -/
theorem exists_applyAll {algs : List Algorithm} (h : tpm.Ready)
    (hpcr : kind = .extend → pcr.toNat < pcrCount) (hbanks : ∀ alg ∈ algs, alg ∈ tpm.algorithms) :
    ∃ after, tpm.applyAll (algs.flatMap (record.entries kind pcr bytes description)) = .ok after := by
  induction algs generalizing tpm with
  | nil => exact ⟨tpm, rfl⟩
  | cons alg rest ih =>
    obtain ⟨halg, hrest⟩ := List.forall_mem_cons.mp hbanks
    obtain ⟨next, hnext⟩ := h.exists_entries record bytes description hpcr halg
    have hbank : tpm.applyAll ([alg].flatMap (record.entries kind pcr bytes description)) = .ok next := by
      rwa [List.flatMap_singleton]
    have hready := h.of_applyAll hbank
    have hsame := (follows_of_applyAll hnext).algorithms_eq
    obtain ⟨after, hafter⟩ := ih hready fun other hother => hsame ▸ hrest other hother
    refine ⟨after, ?_⟩
    rw [List.flatMap_cons, applyAll_append, hnext, ok_bind, hafter]

end Ready

end Tpm

end MeasuredBoot
