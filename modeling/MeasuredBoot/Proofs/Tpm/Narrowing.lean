import Mathlib.Data.List.Perm.Subperm
import MeasuredBoot.Proofs.Tpm.OneByOne
import MeasuredBoot.Proofs.Tpm.Ready

/-!
# Modules with fewer banks

Banks do not influence each other. Whether a module takes a measurement, and what it says if it does not,
depends on whether it is closed and whether it has the PCR, but not on its banks; a module with some of the
banks of another one has the same values in them, and the same events about them.

* `Tpm.refusal?`: why a measurement is refused, if it is;
* `Tpm.Regular.send_of_refusal`, `Tpm.Regular.exists_send`: that this tells what becomes of the measurement;
* `Tpm.Narrows`: a module with some of the banks of another one;
* `Tpm.Narrows.measure`, `Tpm.Narrows.initLazy`: both take the same measurements and starts;
* `Tpm.Narrows.pcrValue_eq`: they have the same values.
-/

namespace MeasuredBoot

namespace PcrValues

variable {values after : PcrValues} {pcr : UInt8} {alg : Algorithm}

theorem length_of_set {value : ByteArray} (h : values.set pcr alg value = .ok after) :
    after.length = values.length := by
  obtain ⟨row, old, -, -, rfl⟩ := of_set h
  exact List.length_set

theorem get_of_length_le (h : values.length ≤ pcr.toNat) :
    values.get pcr alg = .error (.pcrNotInitialized pcr) := by
  rw [get, List.getElem?_eq_none h]

end PcrValues

namespace Algorithm

/-- Hash functions in their order are told by which ones they are. -/
theorem filter_mem_hashes {algs : List Algorithm} (h : algs.Sublist hashes) :
    hashes.filter (· ∈ algs) = algs := by
  have hsublist : algs.Sublist (hashes.filter (· ∈ algs)) := by
    have := h.filter (· ∈ algs)
    rwa [List.filter_eq_self.mpr fun alg halg => decide_eq_true halg] at this
  have hnodup : (hashes.filter (· ∈ algs)).Nodup := List.Nodup.filter _ (by decide)
  have hsubset : hashes.filter (· ∈ algs) ⊆ algs := fun _ halg => of_decide_eq_true (List.mem_filter.mp halg).2
  exact (hsublist.eq_of_length_le (hnodup.subperm hsubset).length_le).symm

/-- Of hash functions in their order, those that are among some of them. -/
theorem filter_mem_of_subset {algs more : List Algorithm} (h : algs.Sublist hashes)
    (hmore : more.Sublist hashes) (hsub : algs ⊆ more) : more.filter (· ∈ algs) = algs :=
  calc
    more.filter (· ∈ algs) = (hashes.filter (· ∈ more)).filter (· ∈ algs) := by rw [filter_mem_hashes hmore]
    _ = hashes.filter (· ∈ algs) := by
      rw [List.filter_filter]
      refine List.filter_congr fun alg _ => ?_
      rw [Bool.and_eq_left_iff_imp]
      exact fun halg => decide_eq_true (hsub (of_decide_eq_true halg))
    _ = algs := filter_mem_hashes h

end Algorithm

namespace Tpm

variable {tpm after : Tpm}

theorem length_of_foldlM_set {algs : List Algorithm} {locality : UInt8} {values after : PcrValues}
    (h : algs.foldlM (fun values alg => do values.set 0 alg (← alg.initialValue 0 locality)) values =
      .ok after) : after.length = values.length := by
  induction algs generalizing values with
  | nil =>
    cases h
    rfl
  | cons alg rest ih =>
    obtain ⟨next, hnext, h⟩ := exists_ok_of_bind h
    obtain ⟨initial, -, hset⟩ := exists_ok_of_bind hnext
    rw [ih h, PcrValues.length_of_set hset]

/-- A start allocates all PCRs. -/
theorem length_startingValues {algs : List Algorithm} {locality : UInt8} {values : PcrValues}
    (h : startingValues algs locality = .ok values) : values.length = pcrCount := by
  rw [length_of_foldlM_set h, PcrValues.allocate, List.length_replicate]

/-! ## What becomes of a measurement -/

/-- The module has a PCR of the number. -/
def HasPcr (tpm : Tpm) (pcr : UInt8) : Prop := tpm.locality.isSome = true ∧ pcr.toNat < pcrCount

instance (tpm : Tpm) (pcr : UInt8) : Decidable (tpm.HasPcr pcr) := inferInstanceAs (Decidable (_ ∧ _))

/-- Why a module with a bank refuses a measurement, if it does. -/
def refusal? (tpm : Tpm) (kind : EventKind) (pcr : UInt8) : Option TpmError :=
  if tpm.finished then some .finished
  else if kind = .extend ∧ ¬tpm.HasPcr pcr then some (.commandFailed 0 "Extend" (.pcrNotInitialized pcr))
  else none

/-- A module with a bank, whose event log explains its PCR values, and that has all PCRs once it is
started. -/
structure Regular (tpm : Tpm) : Prop where
  balanced : tpm.Balanced
  nonempty : tpm.algorithms ≠ []
  length_pcrs : tpm.locality.isSome = true → tpm.pcrs.length = pcrCount

/-- A module after it took something that added events to its event log. -/
structure Takes (tpm after : Tpm) (events : List Event) : Prop where
  regular : after.Regular
  algorithms_eq : after.algorithms = tpm.algorithms
  finished_eq : after.finished = tpm.finished
  eventLog_eq : after.eventLog = tpm.eventLog ++ events

theorem length_pcrs_of_applyAll {commands : List Command} (h : tpm.applyAll commands = .ok after)
    (hinit : ∀ locality, .init locality ∉ commands) : after.pcrs.length = tpm.pcrs.length := by
  induction commands generalizing tpm with
  | nil =>
    cases h
    rfl
  | cons command rest ih =>
    obtain ⟨next, hnext, hrest⟩ := exists_ok_of_bind h
    rw [ih hrest fun locality hmem => hinit locality (List.mem_cons_of_mem command hmem)]
    obtain ⟨locality, _, rfl, -⟩ | ⟨_, _, _, _, _, _, -, -, -, -, hset, rfl⟩ | ⟨event, -, rfl⟩ :=
      apply_cases hnext
    · exact absurd List.mem_cons_self (hinit locality)
    · exact PcrValues.length_of_set hset
    · rfl

namespace Regular

variable (record : MeasuredData) {kind : EventKind} {pcr : UInt8} (bytes : ByteArray) (description : String)

theorem of_algorithms {algs : List Algorithm} (h : algs.Sublist Algorithm.hashes) (hne : algs ≠ []) :
    Regular { algorithms := algs } :=
  ⟨Balanced.of_algorithms h, hne, nofun⟩

/-- Neither the command log nor a closing matters. -/
theorem relog (h : tpm.Regular) (log : List LoggedCommand) (finished : Bool) :
    Regular { tpm with commandLog := log, finished } :=
  ⟨h.balanced.relog log finished, h.nonempty, h.length_pcrs⟩

/-- A PCR that the module does not have has no value in any bank. -/
theorem pcrValue_eq_error (h : tpm.Regular) (hpcr : ¬tpm.HasPcr pcr) (alg : Algorithm) :
    tpm.pcrValue pcr alg = .error (.pcrNotInitialized pcr) := by
  refine PcrValues.get_of_length_le ?_
  cases hlocality : tpm.locality with
  | none =>
    rw [(h.balanced.unstarted hlocality).1]
    exact Nat.zero_le _
  | some locality =>
    have hsome : tpm.locality.isSome = true := by rw [hlocality]; rfl
    rw [h.length_pcrs hsome]
    exact Nat.le_of_not_lt fun hlt => hpcr ⟨hsome, hlt⟩

/-- The first command of a measurement is refused if the module does not have the PCR. -/
theorem extend_eq_error (h : tpm.Regular) (hpcr : ¬tpm.HasPcr pcr) {alg : Algorithm} {digest : ByteArray}
    (hsize : alg.digestSize? = some digest.size) :
    tpm.extend pcr alg digest = .error (.pcrNotInitialized pcr) := by
  have hexpected : alg.digestSize = .ok digest.size := by rw [Algorithm.digestSize, hsize]
  have hget : tpm.pcrs.get pcr alg = .error (.pcrNotInitialized pcr) := h.pcrValue_eq_error hpcr alg
  rw [extend, hexpected, ok_bind, if_neg (not_not_intro rfl), hget]
  rfl

theorem send_of_refusal {e : TpmError} (h : tpm.Regular) (hrefusal : tpm.refusal? kind pcr = some e)
    (cause : Coordinates) :
    tpm.send (tpm.algorithms.flatMap (record.entries kind pcr bytes description)) cause =
      (tpm, .error e) := by
  rw [refusal?] at hrefusal
  split at hrefusal
  · rename_i hclosed
    cases hrefusal
    rw [send, if_pos hclosed]
  rename_i hopen
  split at hrefusal
  · rename_i hno
    obtain ⟨rfl, hpcr⟩ := hno
    cases hrefusal
    obtain ⟨alg, rest, halgs⟩ := List.exists_cons_of_ne_nil h.nonempty
    have hhash := h.balanced.isHash alg (halgs ▸ List.mem_cons_self)
    have hfirst : tpm.RefusesAfter [] (.extend pcr alg (record.event .extend pcr bytes description alg).digest)
        tpm (.pcrNotInitialized pcr) :=
      ⟨rfl, h.extend_eq_error hpcr (record.digestSize?_event .extend pcr bytes description hhash)⟩
    rw [halgs]
    exact hfirst.send (Bool.eq_false_iff.mpr hopen) _ cause
  · cases hrefusal

/-- Events that come with no extension can be logged by every module. -/
theorem exists_applyAll_informational (tpm : Tpm) (algs : List Algorithm) :
    ∃ after, tpm.applyAll (algs.flatMap (record.entries .informational pcr bytes description)) =
      .ok after := by
  induction algs generalizing tpm with
  | nil => exact ⟨tpm, rfl⟩
  | cons alg rest ih => exact ih { tpm with eventLog := tpm.eventLog ++ [_] }

theorem exists_send (h : tpm.Regular) (hrefusal : tpm.refusal? kind pcr = none) (cause : Coordinates) :
    ∃ after,
      tpm.send (tpm.algorithms.flatMap (record.entries kind pcr bytes description)) cause = (after, .ok ()) ∧
      tpm.Takes after (tpm.algorithms.map (record.event kind pcr bytes description)) ∧
      after.locality = tpm.locality := by
  rw [refusal?] at hrefusal
  split at hrefusal
  · cases hrefusal
  rename_i hopen
  have hopen := Bool.eq_false_iff.mpr hopen
  split at hrefusal
  · cases hrefusal
  rename_i hhas
  obtain ⟨applied, happly⟩ : ∃ applied,
      tpm.applyAll (tpm.algorithms.flatMap (record.entries kind pcr bytes description)) = .ok applied := by
    cases kind with
    | informational => exact exists_applyAll_informational record bytes description tpm _
    | extend =>
      have hpcr : tpm.HasPcr pcr := Decidable.not_not.mp fun hno => hhas ⟨rfl, hno⟩
      exact Ready.exists_applyAll record bytes description ⟨h.balanced, hpcr.1, hopen⟩ (fun _ => hpcr.2)
        fun _ => id
  have hinit := record.init_not_mem_entries kind pcr bytes description tpm.algorithms
  have hlocality := locality_of_applyAll happly hinit
  have hfollows := follows_of_applyAll happly
  obtain ⟨hbalanced, hlog⟩ := h.balanced.measure happly
  have happlied : applied.Regular := by
    refine ⟨hbalanced, hfollows.algorithms_eq ▸ h.nonempty, fun hsome => ?_⟩
    rw [length_pcrs_of_applyAll happly hinit]
    exact h.length_pcrs (hlocality ▸ hsome)
  refine ⟨_, send_of_applyAll cause happly hopen, ⟨?_, hfollows.algorithms_eq, hfollows.finished_eq, hlog⟩,
    hlocality⟩
  exact happlied.relog _ _

/-- A module that was not started takes a start. -/
theorem exists_initLazy (h : tpm.Regular) (hnone : tpm.locality = none) (hopen : tpm.finished = false)
    (locality : UInt8) (cause : Coordinates) :
    ∃ after, tpm.initLazy locality cause = (after, .ok ()) ∧ tpm.Takes after [] ∧
      after.locality = some locality := by
  obtain ⟨pcrs, hpcrs, hinit⟩ := Tpm.exists_initLazy h.balanced.isHash hnone hopen locality cause
  have hbalanced := h.balanced.start (start_eq_ok_iff.mpr ⟨hnone, pcrs, hpcrs, rfl⟩)
  have hstarted : Regular { tpm with pcrs, locality := some locality } :=
    ⟨hbalanced, h.nonempty, fun _ => length_startingValues hpcrs⟩
  exact ⟨_, hinit, ⟨hstarted.relog _ _, rfl, rfl, (List.append_nil _).symm⟩, rfl⟩

end Regular

/-! ## Fewer banks -/

/-- A module with some of the banks of another one, and with the events about these. -/
structure Narrows (small large : Tpm) : Prop where
  regular : small.Regular
  regular' : large.Regular
  subset : small.algorithms ⊆ large.algorithms
  locality_eq : small.locality = large.locality
  finished_eq : small.finished = large.finished
  eventLog_eq : small.eventLog = large.eventLog.filter (·.alg ∈ small.algorithms)

namespace Narrows

variable {small large small' large' : Tpm}

theorem hasPcr_iff (h : small.Narrows large) (pcr : UInt8) : small.HasPcr pcr ↔ large.HasPcr pcr := by
  rw [HasPcr, HasPcr, h.locality_eq]

theorem refusal?_eq (h : small.Narrows large) (kind : EventKind) (pcr : UInt8) :
    small.refusal? kind pcr = large.refusal? kind pcr := by
  simp only [refusal?, h.finished_eq, h.hasPcr_iff]

theorem extensions_eq (h : small.Narrows large) (pcr : UInt8) {alg : Algorithm}
    (halg : alg ∈ small.algorithms) : small.extensions pcr alg = large.extensions pcr alg := by
  rw [extensions, extensions, h.eventLog_eq, List.filter_filter]
  refine List.filter_congr fun e _ => ?_
  rw [Bool.and_eq_left_iff_imp]
  intro hext
  rw [(Event.isExtension_iff.mp hext).2.1]
  exact decide_eq_true halg

/-- The values are told by the event log, and those that are missing are missing in both modules. -/
theorem pcrValue_eq (h : small.Narrows large) (pcr : UInt8) {alg : Algorithm}
    (halg : alg ∈ small.algorithms) : small.pcrValue pcr alg = large.pcrValue pcr alg := by
  by_cases hpcr : small.HasPcr pcr
  · obtain ⟨hstarted, hlt⟩ := hpcr
    obtain ⟨locality, hlocality⟩ := Option.isSome_iff_exists.mp hstarted
    obtain ⟨initial, value, hinitial, hall, hvalue⟩ := h.regular.balanced.accounts locality hlocality pcr alg
      hlt halg
    obtain ⟨initial', value', hinitial', hall', hvalue'⟩ := h.regular'.balanced.accounts locality
      (h.locality_eq ▸ hlocality) pcr alg hlt (h.subset halg)
    obtain rfl := Except.ok.inj (hinitial.symm.trans hinitial')
    rw [← h.extensions_eq pcr halg, hall] at hall'
    rw [hvalue, hvalue', Except.ok.inj hall']
  · rw [h.regular.pcrValue_eq_error hpcr, h.regular'.pcrValue_eq_error (mt (h.hasPcr_iff pcr).mpr hpcr)]

/-- Both modules take something, which adds the same events in the banks that both have. -/
theorem takes {events more : List Event} (h : small.Narrows large) (hsmall : small.Takes small' events)
    (hlarge : large.Takes large' more) (hevents : more.filter (·.alg ∈ small.algorithms) = events)
    (hlocality : small'.locality = large'.locality) : small'.Narrows large' where
  regular := hsmall.regular
  regular' := hlarge.regular
  subset := by
    rw [hsmall.algorithms_eq, hlarge.algorithms_eq]
    exact h.subset
  locality_eq := hlocality
  finished_eq := hsmall.finished_eq.trans (h.finished_eq.trans hlarge.finished_eq.symm)
  eventLog_eq := by
    rw [hsmall.algorithms_eq, hsmall.eventLog_eq, hlarge.eventLog_eq, List.filter_append, h.eventLog_eq,
      hevents]

/-- Closing both modules. -/
theorem finish (h : small.Narrows large) : small.finish.Narrows large.finish :=
  ⟨h.regular.relog _ _, h.regular'.relog _ _, h.subset, h.locality_eq, rfl, h.eventLog_eq⟩

theorem filter_events (h : small.Narrows large) (record : MeasuredData) (kind : EventKind) (pcr : UInt8)
    (bytes : ByteArray) (description : String) :
    (large.algorithms.map (record.event kind pcr bytes description)).filter (·.alg ∈ small.algorithms) =
      small.algorithms.map (record.event kind pcr bytes description) := by
  rw [List.filter_map]
  exact congrArg (List.map _)
    (Algorithm.filter_mem_of_subset h.regular.balanced.banks h.regular'.balanced.banks h.subset)

/-- A measurement, which goes into all banks of each module, is taken by both or refused by both for the
same reason, whatever the number of its commands. -/
theorem measure (h : small.Narrows large) (record : MeasuredData) (kind : EventKind) (pcr : UInt8)
    (bytes : ByteArray) (description : String) (cause : Coordinates) :
    let sent := small.send (small.algorithms.flatMap (record.entries kind pcr bytes description)) cause
    let sent' := large.send (large.algorithms.flatMap (record.entries kind pcr bytes description)) cause
    sent.2 = sent'.2 ∧ sent.1.Narrows sent'.1 := by
  have hsame := h.refusal?_eq kind pcr
  cases hrefusal : small.refusal? kind pcr with
  | some e =>
    rw [h.regular.send_of_refusal record bytes description hrefusal,
      h.regular'.send_of_refusal record bytes description (hsame.symm.trans hrefusal)]
    exact ⟨rfl, h⟩
  | none =>
    obtain ⟨small', hsend, htakes, hlocality⟩ :=
      h.regular.exists_send record bytes description hrefusal cause
    obtain ⟨large', hsend', htakes', hlocality'⟩ :=
      h.regular'.exists_send record bytes description (hsame.symm.trans hrefusal) cause
    rw [hsend, hsend']
    refine ⟨rfl, h.takes htakes htakes' (h.filter_events record kind pcr bytes description) ?_⟩
    rw [hlocality, hlocality', h.locality_eq]

theorem initLazy (h : small.Narrows large) (locality : UInt8) (cause : Coordinates) :
    (small.initLazy locality cause).2 = (large.initLazy locality cause).2 ∧
      (small.initLazy locality cause).1.Narrows (large.initLazy locality cause).1 := by
  cases hsome : small.locality with
  | some current =>
    have hsome' := h.locality_eq.symm.trans hsome
    simp only [Tpm.initLazy, hsome, hsome']
    split <;> exact ⟨rfl, h⟩
  | none =>
    have hnone' := h.locality_eq.symm.trans hsome
    cases hopen : small.finished with
    | true =>
      have hclosed' := h.finished_eq.symm.trans hopen
      rw [Tpm.initLazy, Tpm.initLazy, hsome, hnone']
      simp only [send, hopen, hclosed', if_true]
      exact ⟨trivial, h⟩
    | false =>
      obtain ⟨small', hinit, htakes, hlocality⟩ := h.regular.exists_initLazy hsome hopen locality cause
      obtain ⟨large', hinit', htakes', hlocality'⟩ :=
        h.regular'.exists_initLazy hnone' (h.finished_eq.symm.trans hopen) locality cause
      rw [hinit, hinit']
      exact ⟨rfl, h.takes htakes htakes' rfl (hlocality.trans hlocality'.symm)⟩

end Narrows

/-- Modules that were just built. -/
theorem narrows_of_withAlgorithms {algs more : List Algorithm} {small large : Tpm}
    (hsmall : withAlgorithms algs = .ok small) (hlarge : withAlgorithms more = .ok large) (hne : algs ≠ [])
    (hsub : ∀ alg ∈ algs, alg ∈ more) : small.Narrows large := by
  have hmem := mem_algorithms_iff hsmall
  have hmem' := mem_algorithms_iff hlarge
  obtain ⟨alg, rest, rfl⟩ := List.exists_cons_of_ne_nil hne
  have hne' : small.algorithms ≠ [] := List.ne_nil_of_mem ((hmem alg).mpr List.mem_cons_self)
  have hsubset : small.algorithms ⊆ large.algorithms :=
    fun other hother => (hmem' other).mpr (hsub other ((hmem other).mp hother))
  have hne'' : large.algorithms ≠ [] := fun h => hne' (List.subset_nil.mp (h ▸ hsubset))
  obtain ⟨-, rfl⟩ := of_withAlgorithms hsmall
  obtain ⟨-, rfl⟩ := of_withAlgorithms hlarge
  exact ⟨Regular.of_algorithms List.filter_sublist hne', Regular.of_algorithms List.filter_sublist hne'',
    hsubset, rfl, rfl, rfl⟩

end Tpm

end MeasuredBoot
