import MeasuredBoot.Proofs.Tpm.Bookkeeping

/-!
# Slots of a module

A module has a slot for each PCR in each of its banks (`Tpm.HasSlot`), and no others: it has values in
slots only, and logs extensions of slots only (`Tpm.Confined`).

* `Tpm.hasSlot_of_get_startingValues`: what a start allocates;
* `Tpm.Confined.start`, `Tpm.Confined.measure`: starts and measurements stay within the slots;
* `Tpm.Confined.of_not_hasSlot`: what is not there without a slot.
-/

namespace MeasuredBoot

/-! ## Allocation -/

theorem PcrRow.mem_of_get?_allocate {row : PcrRow} {algs : List Algorithm} {alg : Algorithm}
    {value : ByteArray} (hnone : row.get? alg = none)
    (h : (algs.foldl allocate row).get? alg = some value) : alg ∈ algs := by
  induction algs generalizing row with
  | nil =>
    rw [List.foldl_nil, hnone] at h
    cases h
  | cons a rest ih =>
    by_cases ha : alg = a
    · exact ha ▸ List.mem_cons_self
    · refine List.mem_cons_of_mem a (ih ?_ h)
      rw [allocate]
      split
      · rw [get?_put_of_ne row _ ha, hnone]
      · exact hnone

theorem PcrValues.of_get_allocate {count : Nat} {algs : List Algorithm} {pcr : UInt8}
    {alg : Algorithm} {value : ByteArray} (h : (allocate count algs).get pcr alg = .ok value) :
    pcr.toNat < count ∧ alg ∈ algs := by
  have hpcr : pcr.toNat < count := by
    by_contra hge
    have hnone : (allocate count algs)[pcr.toNat]? = none :=
      List.getElem?_eq_none (by rw [allocate, List.length_replicate]; omega)
    rw [get, hnone] at h
    cases h
  refine ⟨hpcr, ?_⟩
  rw [allocate, get_of_getElem? (List.getElem?_replicate_of_lt hpcr)] at h
  split at h
  · rename_i hvalue
    refine PcrRow.mem_of_get?_allocate ?_ hvalue
    cases alg <;> rfl
  · cases h

namespace Tpm

/-- The module has a slot for a PCR in the bank of an algorithm. -/
def HasSlot (tpm : Tpm) (pcr : UInt8) (alg : Algorithm) : Prop :=
  pcr.toNat < pcrCount ∧ alg ∈ tpm.algorithms

theorem hasSlot_of_get_startingValues (tpm : Tpm) {locality : UInt8} {values : PcrValues}
    {pcr : UInt8} {alg : Algorithm} {value : ByteArray}
    (h : startingValues tpm.algorithms locality = .ok values) (hget : values.get pcr alg = .ok value) :
    tpm.HasSlot pcr alg := by
  rw [get_of_foldlM_set h] at hget
  split at hget
  · rename_i hzero
    obtain ⟨rfl, hmem⟩ := hzero
    exact ⟨by decide, hmem⟩
  · exact PcrValues.of_get_allocate hget

/-! ## Staying within the slots -/

/-- The module has values in its slots only, and logged extensions of its slots only. -/
structure Confined (tpm : Tpm) : Prop where
  values : ∀ pcr alg value, tpm.pcrValue pcr alg = .ok value → tpm.HasSlot pcr alg
  events : ∀ e ∈ tpm.eventLog, e.kind = .extend → tpm.HasSlot e.pcr e.alg

namespace Confined

variable {tpm after : Tpm}

theorem of_algorithms (algs : List Algorithm) : Confined { algorithms := algs } where
  values _ _ _ h := nomatch h
  events _ h := nomatch h

theorem start {locality : UInt8} (h : tpm.Confined) (hstart : tpm.start locality = .ok after) :
    after.Confined := by
  obtain ⟨-, pcrs, hpcrs, rfl⟩ := start_eq_ok_iff.mp hstart
  exact ⟨fun _ _ _ hget => tpm.hasSlot_of_get_startingValues hpcrs hget, h.events⟩

/-- A measurement in one bank. -/
theorem entries {record : MeasuredData} {kind : EventKind} {pcr : UInt8} {bytes : ByteArray}
    {description : String} {alg : Algorithm} (h : tpm.Confined)
    (happly : tpm.applyAll (record.entries kind pcr bytes description alg) = .ok after) :
    after.Confined := by
  have hlogged {event : Event} (hslot : event.kind = .extend → tpm.HasSlot event.pcr event.alg) :
      ∀ e ∈ tpm.eventLog ++ [event], e.kind = .extend → tpm.HasSlot e.pcr e.alg :=
    List.forall_mem_append.mpr ⟨h.events, List.forall_mem_singleton.mpr hslot⟩
  cases kind with
  | informational =>
    cases happly
    exact ⟨h.values, hlogged nofun⟩
  | extend =>
    obtain ⟨next, hnext, hlog⟩ := exists_ok_of_bind happly
    obtain ⟨old, value, pcrs, -, hold, -, hpcrs, rfl⟩ := extend_eq_ok_iff.mp hnext
    cases hlog
    have hslot : tpm.HasSlot pcr alg := h.values pcr alg old hold
    refine ⟨fun other alg' value' hget => ?_, hlogged fun _ => hslot⟩
    have hget : pcrs.get other alg' = .ok value' := hget
    rw [PcrValues.get_of_set hpcrs] at hget
    split at hget
    · rename_i hsame
      obtain ⟨rfl, rfl⟩ := hsame
      exact hslot
    · exact h.values other alg' value' hget

/-- A measurement in several banks. -/
theorem measure {record : MeasuredData} {kind : EventKind} {pcr : UInt8} {bytes : ByteArray}
    {description : String} {algs : List Algorithm} (h : tpm.Confined)
    (happly : tpm.applyAll (algs.flatMap (record.entries kind pcr bytes description)) = .ok after) :
    after.Confined := by
  induction algs generalizing tpm with
  | nil =>
    cases happly
    exact h
  | cons alg rest ih =>
    rw [List.flatMap_cons, applyAll_append] at happly
    obtain ⟨next, hnext, hrest⟩ := exists_ok_of_bind happly
    exact ih (h.entries hnext) hrest

theorem initLazy (h : tpm.Confined) (locality : UInt8) (cause : Coordinates) :
    (tpm.initLazy locality cause).1.Confined := by
  obtain hsame | ⟨started, hstart, htaken⟩ := initLazy_started tpm locality cause
  · rw [hsame]
    exact h
  · obtain ⟨hvalues, hevents⟩ := h.start hstart
    rw [htaken]
    exact ⟨hvalues, hevents⟩

end Confined

/-- Without a slot there is neither a value nor an extension. -/
theorem Confined.of_not_hasSlot {tpm : Tpm} (h : tpm.Confined) {pcr : UInt8} {alg : Algorithm}
    (hno : ¬tpm.HasSlot pcr alg) :
    (∃ e, tpm.pcrValue pcr alg = .error e) ∧ tpm.extensions pcr alg = [] := by
  constructor
  · cases hvalue : tpm.pcrValue pcr alg with
    | error e => exact ⟨e, rfl⟩
    | ok value => exact absurd (h.values pcr alg value hvalue) hno
  · refine List.filter_eq_nil_iff.mpr fun e he hext => ?_
    obtain ⟨rfl, rfl, hkind⟩ := Event.isExtension_iff.mp hext
    exact hno (h.events e he hkind)

end Tpm

end MeasuredBoot
