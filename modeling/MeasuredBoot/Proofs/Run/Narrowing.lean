import MeasuredBoot.Proofs.Run.Books
import MeasuredBoot.Proofs.Run.Lockstep
import MeasuredBoot.Proofs.Tpm.Narrowing

/-!
# Runs of machines with fewer banks

The banks of a module influence neither each other nor the run: machines that are the same apart from
modules of which one has fewer banks take the same steps, meet the same problems and measure the same data,
and a bank that both have gets the same values and events.

* `Machine.Narrows`: machines with such modules;
* `Action.parallel_narrows`: every action goes the same way for both;
* `Run.banks_independent`: the runs of any flow.
-/

namespace MeasuredBoot

namespace Machine

/-- Machines that are the same apart from their modules, of which one has some of the banks of the other. -/
structure Narrows (m other : Machine) : Prop where
  artifacts_eq : m.artifacts = other.artifacts
  flow_eq : m.flow = other.flow
  measured_eq : m.measured = other.measured
  tpm : ∃ small large, m.tpm = some small ∧ other.tpm = some large ∧ small.Narrows large

namespace Narrows

variable {m other : Machine}

/-- What goes the same way for both modules goes the same way for both machines. -/
theorem withTpm {act : Tpm → Tpm × Except TpmError Unit} (h : m.Narrows other)
    (hact : ∀ small large, small.Narrows large →
      (act small).2 = (act large).2 ∧ (act small).1.Narrows (act large).1) :
    (m.withTpm act).2 = (other.withTpm act).2 ∧ (m.withTpm act).1.Narrows (other.withTpm act).1 := by
  obtain ⟨small, large, hsmall, hlarge, hnarrows⟩ := h.tpm
  obtain ⟨hresult, hafter⟩ := hact small large hnarrows
  rw [withTpm_eq hsmall, withTpm_eq hlarge, hresult]
  exact ⟨rfl, h.artifacts_eq, h.flow_eq, h.measured_eq, _, _, rfl, rfl, hafter⟩

theorem measure (h : m.Narrows other) (kind : EventKind) (pcr : UInt8) (bytes : ByteArray)
    (description : String) (record : MeasuredData) :
    (m.measure kind pcr bytes description record).2 = (other.measure kind pcr bytes description record).2 ∧
      (m.measure kind pcr bytes description record).1.Narrows
        (other.measure kind pcr bytes description record).1 := by
  obtain ⟨small, large, hsmall, hlarge, hnarrows⟩ := h.tpm
  obtain ⟨hresult, hafter⟩ := hnarrows.measure record kind pcr bytes description record.actor.coords
  rw [measure_eq hsmall (record.commands_eq kind pcr bytes description hnarrows.regular.balanced.isHash),
    measure_eq hlarge (record.commands_eq kind pcr bytes description hnarrows.regular'.balanced.isHash),
    hresult, h.measured_eq]
  exact ⟨rfl, h.artifacts_eq, h.flow_eq, rfl, _, _, rfl, rfl, hafter⟩

end Narrows

theorem lockstep_narrows : Lockstep Narrows where
  flow_eq h := h.flow_eq
  flow _ h := ⟨h.artifacts_eq, rfl, h.measured_eq, h.tpm⟩
  finish := by
    rintro m other ⟨has, hflow, hmeasured, small, large, hsmall, hlarge, hnarrows⟩
    refine ⟨has, hflow, hmeasured, small.finish, large.finish, ?_, ?_, hnarrows.finish⟩
    · rw [Machine.finish, hsmall]
      rfl
    · rw [Machine.finish, hlarge]
      rfl

end Machine

/-- Every action has the same outcome, also where it fails. -/
theorem Action.parallel_narrows (action : Action) : action.Parallel Machine.Narrows := by
  intro m other actor h
  cases action with
  | switchTo flow => exact ⟨rfl, h⟩
  | panic message => exact ⟨rfl, h⟩
  | initTpm locality =>
    obtain ⟨hresult, hmachine⟩ :=
      h.withTpm fun small large hnarrows => hnarrows.initLazy locality actor.coords
    exact ⟨congrArg (Except.map _) hresult, hmachine⟩
  | extend pcr source =>
    rw [Action.apply, Action.apply, ← h.artifacts_eq]
    cases source.fetch m.artifacts with
    | error e => exact ⟨rfl, h⟩
    | ok fetched =>
      dsimp only
      split
      · exact ⟨rfl, h⟩
      · exact h.measure ..
  | event pcr source description =>
    rw [Action.apply, Action.apply, ← h.artifacts_eq]
    cases source.fetch m.artifacts with
    | error e => exact ⟨rfl, h⟩
    | ok fetched => exact h.measure ..

theorem Step.parallel_narrows (step : Step) : step.Parallel Machine.Narrows := by
  intro m other h
  rw [h.artifacts_eq]
  exact ⟨rfl, fun _ _ action _ => action.parallel_narrows⟩

namespace Run

/-- The whole run of one machine and of another one with more banks. -/
theorem inStep_narrows {m other : Machine} (h : m.Narrows other) :
    (ofMachine m).finish.InStep Machine.Narrows (ofMachine other).finish :=
  (InStep.ofMachine h).finish Machine.lockstep_narrows fun _ _ _ step _ => step.parallel_narrows

/-- The banks are those that the module was built with. -/
theorem mem_algorithms_of_finish {algs : List Algorithm} {built tpm : Tpm} {m : Machine}
    (hnew : built.IsNew algs) (hm : m.tpm = some built) (htpm : (ofMachine m).finish.machine.tpm = some tpm)
    (alg : Algorithm) : alg ∈ tpm.algorithms ↔ alg ∈ algs := by
  have hstart : m.Booked m.artifacts built.algorithms := ⟨rfl, built, hm, rfl, hnew.booked _⟩
  have hreach : (ofMachine m).Reaches (ofMachine m).finish := Reaches.start.finish
  obtain ⟨-, tpm', htpm', hbanks, -⟩ := (Machine.kept_booked _ _).reaches hreach hstart
  obtain rfl : tpm' = tpm := Option.some.inj (htpm'.symm.trans htpm)
  rw [hbanks, Tpm.mem_algorithms_iff hnew.withAlgorithms]

/-- A module can be built with any hash functions, and neither their order nor their repetition matters. Two
machines that are the same apart from new modules, of which one has some of the banks of the other and at
least one, carry out every flow with the same status, the same records and the same data measured; a PCR has
the same value in a bank that both have, or is missing in both, and the events are those of the other
module about the banks of the first one. -/
theorem banks_independent {algs more : List Algorithm} (hne : algs ≠ []) (hsub : ∀ alg ∈ algs, alg ∈ more)
    (hhash : ∀ alg ∈ more, alg.isHash = true) :
    ∃ small large, Tpm.withAlgorithms algs = .ok small ∧ Tpm.withAlgorithms more = .ok large ∧
      (∀ same : List Algorithm, (∀ alg, alg ∈ same ↔ alg ∈ algs) → Tpm.withAlgorithms same = .ok small) ∧
      ∀ (m : Machine) (flow : Flow),
        let run := (withFlow { m with tpm := some small } flow).finish
        let other := (withFlow { m with tpm := some large } flow).finish
        run.status = other.status ∧ run.log = other.log ∧ run.machine.measured = other.machine.measured ∧
          ∃ tpm tpm', run.machine.tpm = some tpm ∧ other.machine.tpm = some tpm' ∧
            (∀ alg ∈ algs, ∀ pcr, tpm.pcrValue pcr alg = tpm'.pcrValue pcr alg) ∧
            tpm.eventLog = tpm'.eventLog.filter (·.alg ∈ algs) := by
  obtain ⟨small, hsmall⟩ : ∃ small, Tpm.withAlgorithms algs = .ok small :=
    ⟨_, Tpm.withAlgorithms_eq_ok fun alg hmem => hhash alg (hsub alg hmem)⟩
  obtain ⟨large, hlarge⟩ : ∃ large, Tpm.withAlgorithms more = .ok large :=
    ⟨_, Tpm.withAlgorithms_eq_ok hhash⟩
  refine ⟨small, large, hsmall, hlarge, fun same => Tpm.withAlgorithms_congr hsmall, fun m flow => ?_⟩
  have hnew := Tpm.narrows_of_withAlgorithms hsmall hlarge hne hsub
  have hm : Machine.Narrows { m with tpm := some small, flow := some flow }
      { m with tpm := some large, flow := some flow } := ⟨rfl, rfl, rfl, small, large, rfl, rfl, hnew⟩
  obtain ⟨⟨-, -, hmeasured, tpm, tpm', htpm, htpm', hnarrows⟩, hlog, -, -, hstatus⟩ := inStep_narrows hm
  refine ⟨hstatus, hlog, hmeasured, tpm, tpm', htpm, htpm', ?_⟩
  -- the run does not change which banks there are
  have hmem := mem_algorithms_of_finish (.inr hsmall) rfl htpm
  refine ⟨fun alg halg pcr => hnarrows.pcrValue_eq pcr ((hmem alg).mpr halg), ?_⟩
  rw [hnarrows.eventLog_eq]
  exact List.filter_congr fun e _ => decide_eq_decide.mpr (hmem e.alg)

/-- A flow that extends a PCR, logs an event and then extends a PCR that there is not. -/
def extendsBeyond : Flow := .mk "beyond"
  [.static [.initTpm 3, .extend 0 (.bytes ⟨#[1]⟩)],
    .static [.event 7 (.bytes ⟨#[2]⟩) "note", .extend 24 (.bytes ⟨#[3]⟩)]]

/-- With one bank and with two the run is aborted for the first command of its last measurement. -/
theorem banks_independent_extendsBeyond :
    ∃ small large, Tpm.withAlgorithms [.sha256] = .ok small ∧
      Tpm.withAlgorithms [.sha256, .sha1] = .ok large ∧
      Tpm.withAlgorithms [.sha256, .sha256] = .ok small ∧
      (withFlow { tpm := some small } extendsBeyond).finish.status =
        .aborted (.tpm (.commandFailed 0 "Extend" (.pcrNotInitialized 24))) ∧
      (withFlow { tpm := some large } extendsBeyond).finish.status =
        .aborted (.tpm (.commandFailed 0 "Extend" (.pcrNotInitialized 24))) ∧
      ∃ tpm tpm', (withFlow { tpm := some small } extendsBeyond).finish.machine.tpm = some tpm ∧
        (withFlow { tpm := some large } extendsBeyond).finish.machine.tpm = some tpm' ∧
        tpm.pcrValue 0 .sha256 = tpm'.pcrValue 0 .sha256 ∧
        tpm.eventLog = tpm'.eventLog.filter (·.alg ∈ [Algorithm.sha256]) := by
  have hsub : ∀ alg ∈ [Algorithm.sha256], alg ∈ [Algorithm.sha256, .sha1] := by decide
  have hhash : ∀ alg ∈ [Algorithm.sha256, .sha1], alg.isHash = true := by decide
  have hsame (alg : Algorithm) : alg ∈ [Algorithm.sha256, .sha256] ↔ alg ∈ [Algorithm.sha256] := by
    cases alg <;> decide
  obtain ⟨small, large, hsmall, hlarge, hrepeated, hrun⟩ :=
    banks_independent (List.cons_ne_nil Algorithm.sha256 []) hsub hhash
  obtain ⟨hstatus, -, -, tpm, tpm', htpm, htpm', hvalue, hevents⟩ := hrun {} extendsBeyond
  have haborted : (withFlow { tpm := some small } extendsBeyond).finish.status =
      .aborted (.tpm (.commandFailed 0 "Extend" (.pcrNotInitialized 24))) := by
    cases hsmall
    rw [finish_eq_stepped (n := 2) (by decide +kernel)]
    decide +kernel
  refine ⟨small, large, hsmall, hlarge, hrepeated _ hsame, haborted, hstatus.symm.trans haborted, tpm, tpm',
    htpm, htpm', ?_, hevents⟩
  exact hvalue .sha256 (by decide) 0

end Run

end MeasuredBoot
