import MeasuredBoot.Proofs.Tpm.Committed
import MeasuredBoot.Proofs.Tpm.Narrowing
import MeasuredBoot.Proofs.Tpm.Slots

/-!
# Allocation of banks

A module has no values before it is started. From then on each of its PCRs has a value in exactly the banks of
the module, of the size of the bank's digests. No command changes that, whatever PCR, algorithm or digest it
comes with, and a batch that is refused goes back to the values that it found.

* `PcrValues.Allocated`: values in given banks; `PcrValues.map_fst_banks`: the banks of a PCR in their order;
* `PcrValues.Allocated.of_startingValues`, `PcrValues.Allocated.set`: a start allocates, a replacement keeps;
* `Tpm.Laid.apply`, `Tpm.Reached.laid`: the same for commands, and for what comes of them;
* `Tpm.not_beyondBanks_of_apply`: no command offers a value for an algorithm that cannot have a bank;
* `Tpm.slots_of_reached`: the banks and the values of every module.
-/

namespace MeasuredBoot

/-! ## Sizes of values -/

namespace Algorithm

theorem digestSize_eq_ok_iff {alg : Algorithm} {size : Nat} :
    alg.digestSize = .ok size ↔ alg.digestSize? = some size := by
  rw [digestSize]
  cases alg.digestSize? with
  | none => constructor <;> intro h <;> cases h
  | some n => exact ⟨fun h => congrArg some (Except.ok.inj h), fun h => congrArg _ (Option.some.inj h)⟩

theorem size_of_initialValue {alg : Algorithm} {pcr locality : UInt8} {value : ByteArray}
    (h : alg.initialValue pcr locality = .ok value) : alg.digestSize? = some value.size := by
  obtain ⟨size, hsize, h⟩ := exists_ok_of_bind h
  have hsize := digestSize_eq_ok_iff.mp hsize
  have hpos : 0 < size := by
    cases alg <;> cases hsize <;> decide
  rw [hsize]
  split at h
  · cases h
    rw [ByteArray.size_push, Bytes.size_replicate, Nat.sub_add_cancel hpos]
  · cases h
    rw [Bytes.size_replicate]

theorem size_of_extend {alg : Algorithm} {old digest value : ByteArray}
    (h : alg.extend old digest = .ok value) : alg.digestSize? = some value.size :=
  size_of_digest? (digest?_of_hash h)

theorem isHash_of_initialValue {alg : Algorithm} {pcr locality : UInt8} {value : ByteArray}
    (h : alg.initialValue pcr locality = .ok value) : alg.isHash = true := by
  rw [isHash, size_of_initialValue h]
  rfl

end Algorithm

/-! ## Values in banks -/

namespace PcrValues

variable {algs : List Algorithm} {values after : PcrValues} {pcr : UInt8} {alg : Algorithm} {value : ByteArray}

/-- Each PCR has a value in exactly the banks of some algorithms, and it has the size of their digests. -/
structure Allocated (algs : List Algorithm) (values : PcrValues) : Prop where
  length_eq : values.length = Tpm.pcrCount
  exists_iff : ∀ pcr alg,
    (∃ value, values.get pcr alg = .ok value) ↔ pcr.toNat < Tpm.pcrCount ∧ alg ∈ algs
  size_eq : ∀ pcr alg value, values.get pcr alg = .ok value → alg.digestSize? = some value.size

theorem Allocated.of_startingValues {locality : UInt8} (h : Tpm.startingValues algs locality = .ok values)
    (hhash : ∀ alg ∈ algs, alg.isHash = true) : values.Allocated algs := by
  have hslot {pcr : UInt8} {alg : Algorithm} {value : ByteArray} (hget : values.get pcr alg = .ok value) :
      pcr.toNat < Tpm.pcrCount ∧ alg ∈ algs :=
    Tpm.hasSlot_of_get_startingValues { algorithms := algs } h hget
  refine ⟨Tpm.length_startingValues h, fun pcr alg => ⟨fun ⟨_, hget⟩ => hslot hget, ?_⟩, ?_⟩
  · rintro ⟨hpcr, halg⟩
    rw [Tpm.get_startingValues h hpcr halg (hhash alg halg)]
    exact Algorithm.exists_initialValue (hhash alg halg) pcr locality
  · intro pcr alg value hget
    obtain ⟨hpcr, halg⟩ := hslot hget
    rw [Tpm.get_startingValues h hpcr halg (hhash alg halg)] at hget
    exact Algorithm.size_of_initialValue hget

/-- A value can be replaced by one of the same size. -/
theorem Allocated.set (h : values.Allocated algs) (hset : values.set pcr alg value = .ok after)
    (hsize : alg.digestSize? = some value.size) : after.Allocated algs := by
  obtain ⟨row, old, hrow, hold, -⟩ := of_set hset
  have hslot : pcr.toNat < Tpm.pcrCount ∧ alg ∈ algs :=
    (h.exists_iff pcr alg).mp ⟨old, by rw [get_of_getElem? hrow, hold]⟩
  refine ⟨(length_of_set hset).trans h.length_eq, fun other alg' => ?_, fun other alg' value' hget => ?_⟩
  · rw [get_of_set hset, ← h.exists_iff other alg']
    split
    · rename_i hsame
      obtain ⟨rfl, rfl⟩ := hsame
      exact iff_of_true ⟨value, rfl⟩ ((h.exists_iff other alg').mpr hslot)
    · rfl
  · rw [get_of_set hset] at hget
    split at hget
    · rename_i hsame
      obtain ⟨rfl, rfl⟩ := hsame
      cases hget
      exact hsize
    · exact h.size_eq other alg' value' hget

theorem get_eq_ok_iff {row : PcrRow} (hrow : values[pcr.toNat]? = some row) :
    values.get pcr alg = .ok value ↔ row.get? alg = some value := by
  rw [get_of_getElem? hrow]
  cases row.get? alg with
  | none => exact ⟨nofun, nofun⟩
  | some old => exact ⟨fun h => congrArg some (Except.ok.inj h), fun h => congrArg _ (Option.some.inj h)⟩

theorem banks_of_getElem? {row : PcrRow} (hrow : values[pcr.toNat]? = some row) :
    values.banks pcr = row.toList := by
  rw [banks, hrow]

theorem banks_of_length_le (h : values.length ≤ pcr.toNat) : values.banks pcr = [] := by
  rw [banks, List.getElem?_eq_none h]

/-- The banks of a PCR have the values that can be read. -/
theorem mem_banks_iff : (alg, value) ∈ values.banks pcr ↔ values.get pcr alg = .ok value := by
  cases hrow : values[pcr.toNat]? with
  | none =>
    have hlength := List.getElem?_eq_none_iff.mp hrow
    rw [banks_of_length_le hlength, get_of_length_le hlength]
    exact ⟨fun h => absurd h List.not_mem_nil, nofun⟩
  | some row =>
    rw [get_eq_ok_iff hrow, banks_of_getElem? hrow, PcrRow.toList, List.mem_filterMap]
    constructor
    · rintro ⟨alg', -, hvalue⟩
      obtain ⟨_, hvalue, hpair⟩ := Option.map_eq_some_iff.mp hvalue
      cases hpair
      exact hvalue
    · intro hvalue
      refine ⟨alg, (Algorithm.mem_hashes_iff alg).mpr (PcrRow.isHash_of_get? hvalue), ?_⟩
      rw [hvalue]
      rfl

/-- The banks of a PCR stand in the order of the hash functions. -/
theorem map_fst_banks (values : PcrValues) (pcr : UInt8) :
    (values.banks pcr).map (·.1) = Algorithm.hashes.filter fun alg => (values.get pcr alg).isOk := by
  cases hrow : values[pcr.toNat]? with
  | none =>
    have hlength := List.getElem?_eq_none_iff.mp hrow
    rw [banks_of_length_le hlength]
    simp only [get_of_length_le hlength]
    rfl
  | some row =>
    have hone (alg : Algorithm) : ((row.get? alg).map (alg, ·)).map (·.1) =
        if (values.get pcr alg).isOk then some alg else none := by
      rw [get_of_getElem? hrow]
      cases row.get? alg <;> rfl
    rw [banks_of_getElem? hrow, PcrRow.toList, List.map_filterMap, ← List.filterMap_eq_filter]
    exact List.filterMap_congr fun alg _ => hone alg

theorem Allocated.map_fst_banks (h : values.Allocated algs) (hbanks : algs.Sublist Algorithm.hashes)
    (hpcr : pcr.toNat < Tpm.pcrCount) : (values.banks pcr).map (·.1) = algs := by
  rw [PcrValues.map_fst_banks, ← Algorithm.filter_mem_hashes hbanks]
  refine List.filter_congr fun alg _ => ?_
  rw [Bool.eq_iff_iff, decide_eq_true_iff, ← and_iff_right hpcr (b := alg ∈ algs), ← h.exists_iff]
  exact ⟨exists_ok_of_isOk, fun ⟨value, hget⟩ => by rw [hget]; rfl⟩

end PcrValues

namespace Tpm

/-! ## Values of a module -/

/-- A module that has no values before its start, and then values in exactly its banks. -/
structure Laid (tpm : Tpm) : Prop where
  banks : tpm.algorithms.Sublist Algorithm.hashes
  unstarted : tpm.locality = none → tpm.pcrs = []
  started : ∀ locality, tpm.locality = some locality → tpm.pcrs.Allocated tpm.algorithms

namespace Laid

variable {tpm after : Tpm}

theorem isHash (h : tpm.Laid) : ∀ alg ∈ tpm.algorithms, alg.isHash = true :=
  fun alg halg => alg.mem_hashes_iff.mp (h.banks.subset halg)

theorem of_built {algs : List Algorithm} (h : withAlgorithms algs = .ok tpm) : tpm.Laid := by
  obtain ⟨-, rfl⟩ := of_withAlgorithms h
  exact ⟨List.filter_sublist, fun _ => rfl, nofun⟩

/-- Neither the logs nor the end of a module are among its values. -/
theorem relog (h : tpm.Laid) (log : List LoggedCommand) (finished : Bool) :
    Laid { tpm with commandLog := log, finished } :=
  ⟨h.banks, h.unstarted, h.started⟩

/-- One command more. An extension finds a value, so that the module was started. -/
theorem apply {command : Command} (h : tpm.Laid) (happly : tpm.apply command = .ok after) : after.Laid := by
  obtain ⟨locality, pcrs, -, -, hpcrs, rfl⟩ |
    ⟨pcr, alg, digest, old, value, pcrs, -, -, hold, hvalue, hset, rfl⟩ | ⟨event, -, rfl⟩ :=
      apply_cases happly
  · exact ⟨h.banks, nofun, fun _ _ => .of_startingValues hpcrs h.isHash⟩
  · refine ⟨h.banks, fun hnone => ?_, fun locality hlocality => ?_⟩
    · rw [h.unstarted hnone] at hold
      cases hold
    · exact (h.started locality hlocality).set hset (Algorithm.size_of_extend hvalue)
  · exact ⟨h.banks, h.unstarted, h.started⟩

theorem kept : Kept fun tpm _ => tpm.Laid := ⟨relog, apply⟩

end Laid

theorem Reached.laid {algs : List Algorithm} {tpm : Tpm} (h : Reached algs tpm) : tpm.Laid :=
  Laid.kept.of_reached (fun _ => .of_built) h

end Tpm

/-! ## Algorithms beyond the banks -/

/-- A value was offered for an algorithm that cannot have a bank. -/
def TpmError.BeyondBanks : TpmError → Prop
  | .algorithmBeyondBanks _ => True
  | .commandFailed _ _ reason => reason.BeyondBanks
  | _ => False

namespace Algorithm

variable {alg : Algorithm} {e : TpmError}

theorem not_beyondBanks_of_digestSize (h : alg.digestSize = .error e) : ¬e.BeyondBanks := by
  rw [digestSize] at h
  cases hsize : alg.digestSize? with
  | some size =>
    rw [hsize] at h
    cases h
  | none =>
    rw [hsize] at h
    cases h
    exact not_false

theorem not_beyondBanks_of_hash {message : ByteArray} (h : alg.hash message = .error e) : ¬e.BeyondBanks := by
  rw [hash] at h
  cases hdigest : alg.digest? message with
  | some digest =>
    rw [hdigest] at h
    cases h
  | none =>
    rw [hdigest] at h
    cases h
    exact not_false

theorem not_beyondBanks_of_initialValue {pcr locality : UInt8} (h : alg.initialValue pcr locality = .error e) :
    ¬e.BeyondBanks := by
  obtain h | ⟨size, -, h⟩ := bind_eq_error_iff.mp h
  · exact not_beyondBanks_of_digestSize h
  · split at h <;> cases h

end Algorithm

namespace PcrValues

variable {values : PcrValues} {pcr : UInt8} {alg : Algorithm} {e : TpmError}

theorem not_beyondBanks_of_get (h : values.get pcr alg = .error e) : ¬e.BeyondBanks := by
  rw [get] at h
  cases hrow : values[pcr.toNat]? with
  | none =>
    rw [hrow] at h
    cases h
    exact not_false
  | some row =>
    rw [hrow] at h
    dsimp only at h
    cases hvalue : row.get? alg with
    | none =>
      rw [hvalue] at h
      cases h
      exact not_false
    | some value =>
      rw [hvalue] at h
      cases h

/-- A value of a hash function is refused only where there is none that could be read. -/
theorem get_of_set_eq_error {value : ByteArray} (hhash : alg.isHash = true)
    (h : values.set pcr alg value = .error e) : values.get pcr alg = .error e := by
  rw [set, if_neg (Nat.not_lt.mpr (Algorithm.id_le_of_isHash hhash))] at h
  rw [get]
  cases hrow : values[pcr.toNat]? with
  | none =>
    rw [hrow] at h
    cases h
    rfl
  | some row =>
    rw [hrow] at h
    dsimp only at h ⊢
    cases hold : row.get? alg with
    | none =>
      rw [hold] at h
      cases h
      rfl
    | some old =>
      rw [hold] at h
      cases h

end PcrValues

namespace Tpm

variable {e : TpmError}

theorem not_beyondBanks_of_startingValues {algs : List Algorithm} {locality : UInt8} {values : PcrValues}
    (h : algs.foldlM (fun values alg => do values.set 0 alg (← alg.initialValue 0 locality)) values = .error e) :
    ¬e.BeyondBanks := by
  induction algs generalizing values with
  | nil => cases h
  | cons alg rest ih =>
    obtain h | ⟨next, -, h⟩ := bind_eq_error_iff.mp h
    · obtain h | ⟨initial, hinitial, h⟩ := bind_eq_error_iff.mp h
      · exact Algorithm.not_beyondBanks_of_initialValue h
      · have hhash := Algorithm.isHash_of_initialValue hinitial
        exact PcrValues.not_beyondBanks_of_get (PcrValues.get_of_set_eq_error hhash h)
    · exact ih h

variable {tpm : Tpm}

theorem not_beyondBanks_of_start {locality : UInt8} (h : tpm.start locality = .error e) : ¬e.BeyondBanks := by
  rw [start] at h
  cases hlocality : tpm.locality with
  | some current =>
    rw [hlocality] at h
    cases h
    exact not_false
  | none =>
    rw [hlocality] at h
    obtain h | ⟨values, -, h⟩ := bind_eq_error_iff.mp h
    · exact not_beyondBanks_of_startingValues h
    · cases h

/-- The size of the digest is asked for first, which tells the hash functions from the other algorithms. -/
theorem not_beyondBanks_of_extend {pcr : UInt8} {alg : Algorithm} {digest : ByteArray}
    (h : tpm.extend pcr alg digest = .error e) : ¬e.BeyondBanks := by
  obtain h | ⟨size, hsize, h⟩ := bind_eq_error_iff.mp h
  · exact Algorithm.not_beyondBanks_of_digestSize h
  have hhash : alg.isHash = true := by
    rw [Algorithm.isHash, Algorithm.digestSize_eq_ok_iff.mp hsize]
    rfl
  split at h
  · cases h
    exact not_false
  obtain h | ⟨old, -, h⟩ := bind_eq_error_iff.mp h
  · exact PcrValues.not_beyondBanks_of_get h
  obtain h | ⟨value, -, h⟩ := bind_eq_error_iff.mp h
  · exact Algorithm.not_beyondBanks_of_hash h
  obtain h | ⟨pcrs, -, h⟩ := bind_eq_error_iff.mp h
  · exact PcrValues.not_beyondBanks_of_get (PcrValues.get_of_set_eq_error hhash h)
  · cases h

/-- No command offers a value for an algorithm that cannot have a bank. -/
theorem not_beyondBanks_of_apply {command : Command} (h : tpm.apply command = .error e) : ¬e.BeyondBanks := by
  cases command with
  | init locality => exact not_beyondBanks_of_start h
  | extend pcr alg digest => exact not_beyondBanks_of_extend h
  | eventLogAdd event => cases h

theorem not_beyondBanks_of_send {commands : List Command} {cause : Coordinates}
    (h : (tpm.send commands cause).2 = .error e) : ¬e.BeyondBanks := by
  cases hopen : tpm.finished with
  | true =>
    rw [send, if_pos hopen] at h
    cases h
    exact not_false
  | false =>
    obtain ⟨after, happlied⟩ | ⟨before, command, rest, mid, reason, rfl, hrefuses⟩ := tpm.applyAll_cases commands
    · rw [send_of_applyAll cause happlied hopen] at h
      cases h
    · rw [hrefuses.send hopen] at h
      cases h
      have hreason : ¬reason.BeyondBanks := not_beyondBanks_of_apply hrefuses.refused
      exact hreason

/-! ## Slots -/

/-- A module that came from a fresh one in any way has the banks that it was built with, each once and in the
order of the hash functions. It was not started and has no values, or it has 24 PCRs with values in exactly
its banks, of the size of the bank's digests, and lists the values of each PCR in the order of its banks.
Whatever commands it is sent, none of them offers a value for an algorithm that cannot have a bank. -/
theorem slots_of_reached {algs : List Algorithm} {tpm : Tpm} (h : Reached algs tpm) :
    tpm.algorithms.Pairwise (·.id < ·.id) ∧ (∀ alg, alg ∈ tpm.algorithms ↔ alg ∈ algs) ∧
    (∀ alg ∈ tpm.algorithms, alg.isHash = true) ∧
    (tpm.locality = none ∧ tpm.pcrs = [] ∨
      (∃ locality, tpm.locality = some locality) ∧ tpm.pcrs.length = 24 ∧
      (∀ pcr alg,
        (∃ value, tpm.pcrValue pcr alg = .ok value) ↔ pcr.toNat < 24 ∧ alg ∈ tpm.algorithms) ∧
      (∀ pcr alg value, tpm.pcrValue pcr alg = .ok value → alg.digestSize? = some value.size) ∧
      (∀ pcr, pcr.toNat < 24 → (tpm.pcrs.banks pcr).map (·.1) = tpm.algorithms) ∧
      ∀ pcr alg value, (alg, value) ∈ tpm.pcrs.banks pcr ↔ tpm.pcrValue pcr alg = .ok value) ∧
    ∀ commands cause e, (tpm.send commands cause).2 = .error e → ¬e.BeyondBanks := by
  have hlaid := h.laid
  have hascending : Algorithm.hashes.Pairwise (·.id < ·.id) := by decide
  refine ⟨hascending.sublist hlaid.banks, h.mem_algorithms_iff, hlaid.isHash, ?_,
    fun _ _ _ => not_beyondBanks_of_send⟩
  cases hlocality : tpm.locality with
  | none => exact .inl ⟨rfl, hlaid.unstarted hlocality⟩
  | some locality =>
    have hall := hlaid.started locality hlocality
    exact .inr ⟨⟨locality, rfl⟩, hall.length_eq, hall.exists_iff, hall.size_eq,
      fun _ hpcr => hall.map_fst_banks hlaid.banks hpcr, fun _ _ _ => PcrValues.mem_banks_iff⟩

/-- Commands of which the last ones come with a digest of the wrong size, an algorithm that is no hash
function, and a PCR that is not there. -/
def strayCommands : List Command :=
  [.extend 0 .sha1 (Bytes.replicate 20 7), .extend 23 .sha384 (Bytes.replicate 48 1),
    .extend 1 .sha1 (Bytes.replicate 19 0), .extend 1 .ecc (Bytes.replicate 20 0),
    .extend 24 .sha1 (Bytes.replicate 20 0)]

/-- A module that took each of these commands on its own, then all of them as a batch, and was closed. -/
def strayed : Tpm :=
  let started := (Tpm.initLazy { algorithms := [.sha1, .sha384] } 3 ⟨0, 0, 0⟩).1
  let alone := strayCommands.foldl (fun tpm command => (tpm.send [command] ⟨0, 1, 0⟩).1) started
  (alone.send strayCommands ⟨0, 2, 0⟩).1.finish

theorem slots_of_reached_strayed :
    Reached [.sha384, .sha1, .sha1] strayed ∧ strayed.commandLog.length = 3 ∧
      strayed.pcrs.length = 24 ∧ (strayed.pcrs.banks 23).map (·.1) = [.sha1, .sha384] ∧
      (∃ value, strayed.pcrValue 23 .sha384 = .ok value ∧ value.size = 48) ∧
      ∀ e, (strayed.send strayCommands ⟨0, 3, 0⟩).2 = .error e → ¬e.BeyondBanks := by
  have hreached : Reached [.sha384, .sha1, .sha1] strayed :=
    .finish (.send (.send (.send (.send (.send (.send (.initLazy (.built rfl) _ _) _ _) _ _) _ _) _ _) _ _) _ _)
  have hlog : strayed.commandLog.length = 3 := by decide +kernel
  have hstarted : strayed.locality ≠ none := by decide +kernel
  have hbanks : strayed.algorithms = [.sha1, .sha384] := by decide +kernel
  obtain ⟨-, -, -, hslots, hsend⟩ := slots_of_reached hreached
  obtain ⟨hnone, -⟩ | ⟨-, hlength, hvalue, hsize, hnames, -⟩ := hslots
  · exact absurd hnone hstarted
  rw [hbanks] at hvalue hnames
  obtain ⟨value, hread⟩ := (hvalue 23 .sha384).mpr ⟨by decide, by decide⟩
  have hvalueSize := Option.some.inj (hsize 23 .sha384 value hread)
  exact ⟨hreached, hlog, hlength, hnames 23 (by decide), ⟨value, hread, hvalueSize.symm⟩, hsend _ _⟩

end Tpm

end MeasuredBoot
