import MeasuredBoot.Proofs.Artifact.Extents
import MeasuredBoot.Proofs.Run.Books

/-!
# The replay of a PCR and the module

A `PcrReplay` has the initial value of a PCR and a measurement for each of its extensions in the event
log (`PcrReplay.ofMachine_eq_ok_iff`). The measurements have the digests of the events
(`PcrReplay.digests_of_logs`), so that the final value is that of the module, where it has one. The
replay does not ask for that:

* `PcrReplay.finalValue_ofMachine`: the final value is the PCR value, or the module has no slot for it
  and the final value is the initial one, extended by nothing.
-/

namespace MeasuredBoot

theorem Machine.getTpm_eq_ok_iff {m : Machine} {tpm : Tpm} : m.getTpm = .ok tpm ↔ m.tpm = some tpm := by
  rw [getTpm]
  cases m.tpm with
  | none => exact ⟨nofun, nofun⟩
  | some other =>
    exact ⟨fun h => congrArg some (Except.ok.inj h), fun h => congrArg Except.ok (Option.some.inj h)⟩

/-! ## Measurements -/

/-- The references of data by offsets, none if the data is given by value or converted. -/
def Data.nativeReferences (d : Data) (as : Artifacts) : Except ContractViolation References :=
  match d.references?, d.converter with
  | some refs, none => refs.resolve as
  | _, _ => .ok []

namespace Measurement

/-- The measurement has the digest of an event, and the bytes and references of what was measured. -/
def Logs (as : Artifacts) (event : Event) (m : Measurement) : Prop :=
  ∃ record, event.measured = some record ∧ m.digest = event.digest ∧
    record.data.bytes as = .ok m.payload ∧ record.data.nativeReferences as = .ok m.references

theorem ofEvent_eq {as : Artifacts} {index : Nat} {event : Event} {record : MeasuredData}
    (h : event.measured = some record) :
    ofEvent as index event = (do
      let payload ← (record.data.bytes as).mapError (.run ∘ .contract)
      let references ← (record.data.nativeReferences as).mapError (.run ∘ .contract)
      return { digest := event.digest, payload, references }) := by
  rw [ofEvent, h, Data.nativeReferences]
  dsimp only
  cases record.data.references? <;> cases record.data.converter <;> rfl

theorem ofEvent_eq_ok_iff {as : Artifacts} {index : Nat} {event : Event} {m : Measurement} :
    ofEvent as index event = .ok m ↔ m.Logs as event := by
  cases hrecord : event.measured with
  | none =>
    rw [ofEvent, Logs, hrecord]
    exact ⟨nofun, fun ⟨_, h, _⟩ => nomatch h⟩
  | some record =>
    rw [ofEvent_eq hrecord, Logs, hrecord]
    simp only [bind_eq_ok_iff, mapError_eq_ok_iff]
    constructor
    · rintro ⟨payload, hpayload, references, hreferences, h⟩
      cases h
      exact ⟨record, rfl, rfl, hpayload, hreferences⟩
    · rintro ⟨_, h, hdigest, hpayload, hreferences⟩
      cases h
      exact ⟨m.payload, hpayload, m.references, hreferences, hdigest ▸ rfl⟩

end Measurement

namespace PcrReplay

/-- The replay of a machine has the initial value of the PCR, for the locality of the module, and the
measurements of its extensions. -/
theorem ofMachine_eq_ok_iff {m : Machine} {pcr : UInt8} {alg : Algorithm} {replay : PcrReplay} :
    ofMachine m pcr alg = .ok replay ↔ ∃ tpm locality, m.tpm = some tpm ∧
      tpm.locality = some locality ∧ alg.initialValue pcr locality = .ok replay.initial ∧
      replay.pcr = pcr ∧ replay.alg = alg ∧
      List.Forall₂ (fun event measurement => measurement.Logs m.artifacts event)
        (tpm.extensions pcr alg) replay.measurements := by
  have hextensions (tpm : Tpm) :
      (tpm.eventsFor pcr alg).filter (·.kind = .extend) = tpm.extensions pcr alg := by
    rw [Tpm.eventsFor, List.filter_filter, Tpm.extensions]
    exact List.filter_congr fun e _ => Bool.and_comm ..
  have hlogs (events : List Event) (ms : List Measurement) :
      events.zipIdx.mapM (fun indexed => Measurement.ofEvent m.artifacts indexed.2 indexed.1) = .ok ms ↔
        List.Forall₂ (fun event measurement => measurement.Logs m.artifacts event) events ms := by
    rw [mapM_eq_ok_iff]
    simp only [Measurement.ofEvent_eq_ok_iff]
    conv_rhs => rw [← List.zipIdx_map_fst 0 events, List.forall₂_map_left_iff]
  rw [ofMachine, bind_eq_ok_iff]
  constructor
  · rintro ⟨tpm, htpm, h⟩
    have htpm := Machine.getTpm_eq_ok_iff.mp (mapError_eq_ok_iff.mp htpm)
    dsimp only at h
    split at h
    · cases h
    rename_i locality hlocality
    obtain ⟨initial, hinitial, h⟩ := exists_ok_of_bind h
    obtain ⟨ms, hms, h⟩ := exists_ok_of_bind h
    cases h
    rw [hextensions] at hms
    exact ⟨tpm, locality, htpm, hlocality, mapError_eq_ok_iff.mp hinitial, rfl, rfl, (hlogs _ _).mp hms⟩
  · rintro ⟨tpm, locality, htpm, hlocality, hinitial, rfl, rfl, hms⟩
    refine ⟨tpm, mapError_eq_ok_iff.mpr (Machine.getTpm_eq_ok_iff.mpr htpm), ?_⟩
    rw [hlocality]
    simp only [bind_eq_ok_iff, mapError_eq_ok_iff, hextensions]
    exact ⟨replay.initial, hinitial, replay.measurements, (hlogs _ _).mpr hms, rfl⟩

/-- The measurements have the digests of the events. -/
theorem digests_of_logs {as : Artifacts} {events : List Event} {ms : List Measurement}
    (h : List.Forall₂ (fun event measurement => measurement.Logs as event) events ms) :
    digests ms = events.map (·.digest) := by
  induction h with
  | nil => rfl
  | cons hlogs _ ih =>
    obtain ⟨record, -, hdigest, -⟩ := hlogs
    rw [digests, List.map_cons, List.map_cons, hdigest]
    exact congrArg _ ih

theorem exists_logs_of_mem {as : Artifacts} {events : List Event} {ms : List Measurement}
    (h : List.Forall₂ (fun event measurement => measurement.Logs as event) events ms) {m : Measurement}
    (hm : m ∈ ms) : ∃ event ∈ events, m.Logs as event := by
  induction h with
  | nil => cases hm
  | cons hlogs _ ih =>
    obtain rfl | hm := List.mem_cons.mp hm
    · exact ⟨_, List.mem_cons_self, hlogs⟩
    · obtain ⟨event, hmem, hlog⟩ := ih hm
      exact ⟨event, List.mem_cons_of_mem _ hmem, hlog⟩

/-- The data of backed events can be read again, with its references. -/
theorem exists_logs_of_backed {as : Artifacts} {events : List Event} (h : ∀ e ∈ events, e.Backed as) :
    ∃ ms : List Measurement, List.Forall₂ (fun event m => m.Logs as event) events ms := by
  induction events with
  | nil => exact ⟨[], .nil⟩
  | cons event rest ih =>
    obtain ⟨⟨record, bytes, hrecord, hbytes, -⟩, hrest⟩ := List.forall_mem_cons.mp h
    obtain ⟨ms, hms⟩ := ih hrest
    suffices hnative : ∃ native, record.data.nativeReferences as = .ok native by
      obtain ⟨native, hnative⟩ := hnative
      exact ⟨⟨event.digest, bytes, native⟩ :: ms, .cons ⟨record, hrecord, rfl, hbytes, hnative⟩ hms⟩
    obtain ⟨⟨content, converter⟩, source, actor, chain⟩ := record
    obtain ⟨raw, hraw, -⟩ := exists_ok_of_bind hbytes
    cases content with
    | forced given => exact ⟨[], rfl⟩
    | references refs =>
      cases converter with
      | some c => exact ⟨[], rfl⟩
      | none =>
        obtain ⟨native, hnative, -⟩ := References.bytes_eq_ok_iff.mp hraw
        exact ⟨native, hnative⟩

/-- A PCR of a machine whose books are kept can be replayed once the module was started. -/
theorem exists_ofMachine {m : Machine} {as : Artifacts} {algs : List Algorithm} {tpm : Tpm} {pcr : UInt8}
    {alg : Algorithm} (hbooked : m.Booked as algs) (htpm : m.tpm = some tpm) (halg : alg ∈ algs)
    (hstarted : tpm.locality ≠ none) : ∃ replay, ofMachine m pcr alg = .ok replay := by
  obtain ⟨rfl, tpm', hsame, rfl, hbook⟩ := hbooked
  obtain rfl := Option.some.inj (htpm.symm.trans hsame)
  obtain ⟨locality, hlocality⟩ := Option.ne_none_iff_exists'.mp hstarted
  obtain ⟨initial, hinitial⟩ := Algorithm.exists_initialValue (hbook.balanced.isHash alg halg) pcr locality
  have hbacked : ∀ e ∈ tpm.extensions pcr alg, e.Backed m.artifacts :=
    fun e he => hbook.backed e (List.mem_of_mem_filter he)
  obtain ⟨ms, hms⟩ := exists_logs_of_backed hbacked
  exact ⟨⟨pcr, alg, initial, ms⟩,
    ofMachine_eq_ok_iff.mpr ⟨tpm, locality, htpm, hlocality, hinitial, rfl, rfl, hms⟩⟩

/-- Of a machine with a new module, at every point of its run: a replay ends in the PCR value, or it is
that of a PCR or of a bank that the module does not have, without any measurement. -/
theorem finalValue_ofMachine {algs : List Algorithm} {built : Tpm} {m : Machine} {run : Run}
    {pcr : UInt8} {alg : Algorithm} {replay : PcrReplay} (hnew : built.IsNew algs)
    (hm : m.tpm = some built) (hrun : (Run.ofMachine m).Reaches run)
    (hreplay : ofMachine run.machine pcr alg = .ok replay) :
    ∃ tpm, run.machine.tpm = some tpm ∧
      ((pcr.toNat < Tpm.pcrCount ∧ alg ∈ algs ∧
          ∃ value, tpm.pcrValue pcr alg = .ok value ∧ replay.finalValue = .ok value) ∨
        (¬(pcr.toNat < Tpm.pcrCount ∧ alg ∈ algs) ∧ replay.measurements = [] ∧
          (∃ e, tpm.pcrValue pcr alg = .error e) ∧ replay.finalValue = .ok replay.initial)) := by
  obtain ⟨⟨-, tpm, htpm, halgs, hbooked⟩, hconfined⟩ :=
    (Machine.kept_confined _ _).reaches hrun (Machine.confined_of_isNew hnew hm)
  obtain ⟨tpm', locality, htpm', hlocality, hinitial, -, rfl, hlogs⟩ := ofMachine_eq_ok_iff.mp hreplay
  obtain rfl : tpm = tpm' := Option.some.inj (htpm.symm.trans htpm')
  have hslot : tpm.HasSlot pcr replay.alg ↔ pcr.toNat < Tpm.pcrCount ∧ replay.alg ∈ algs := by
    rw [Tpm.HasSlot, halgs, Tpm.mem_algorithms_iff hnew.withAlgorithms]
  refine ⟨tpm, htpm, ?_⟩
  by_cases hhas : tpm.HasSlot pcr replay.alg
  · obtain ⟨initial, value, hinitial', hall, hvalue⟩ :=
      hbooked.balanced.accounts locality hlocality pcr replay.alg hhas.1 hhas.2
    obtain rfl : initial = replay.initial := Except.ok.inj (hinitial'.symm.trans hinitial)
    refine .inl ⟨hhas.1, (hslot.mp hhas).2, value, hvalue, ?_⟩
    rw [finalValue, digests_of_logs hlogs, hall]
    rfl
  · obtain ⟨hvalue, hnone⟩ := (hconfined tpm htpm).of_not_hasSlot hhas
    rw [hnone, List.forall₂_nil_left_iff] at hlogs
    refine .inr ⟨fun h => hhas (hslot.mpr h), hlogs, hvalue, ?_⟩
    rw [finalValue, hlogs]
    rfl

/-- A module with the default banks was closed after a measurement into PCR 0. There is a replay of
PCR 0 in a bank that it does not have. -/
theorem finalValue_ofMachine_missingBank :
    let run := (Run.ofMachine Run.measuresByte).next.1.next.1.next.1
    run.status = .finished ∧ ∃ replay tpm e, ofMachine run.machine 0 .sha384 = .ok replay ∧
      replay.finalValue = .ok replay.initial ∧ run.machine.tpm = some tpm ∧
      tpm.pcrValue 0 .sha384 = .error e := by
  intro run
  obtain ⟨replay, hreplay⟩ := exists_ok_of_isOk
    (show (ofMachine run.machine 0 .sha384).isOk = true by decide +kernel)
  obtain ⟨tpm, htpm, ⟨-, hmem, -⟩ | ⟨-, -, ⟨e, he⟩, hfinal⟩⟩ := finalValue_ofMachine
    (.inl ⟨rfl, rfl⟩) rfl (.next (.next (.next .start))) hreplay
  · exact absurd hmem (by decide)
  · exact ⟨by decide +kernel, replay, tpm, e, hreplay, hfinal, htpm, he⟩

end PcrReplay

end MeasuredBoot
