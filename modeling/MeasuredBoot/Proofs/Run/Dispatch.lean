import MeasuredBoot.Proofs.Firmware.Flash
import MeasuredBoot.Proofs.Firmware.TableImage
import MeasuredBoot.Proofs.Run.Platforms

/-!
# Which platform the root flow selects

The root flow looks for a Firmware Interface Table, then for an Embedded Firmware Structure, and its records
tell which of them it found: the steps of the root flow up to the one that switches, and from then on the
steps of the platform's flow alone. Where nothing is found the third step aborts the run, before any command
was sent to the module.

* `Flow.Recorded`: records of the steps of a flow, in order;
* `Run.At.log_switch`, `Run.At.log_skip`, `Run.At.finish_of_panic`: steps that look for a platform;
* `Flow.Stays.log_next`, `Flow.Stays.log_finish`: the records of a flow that does not switch to another one;
* `Run.root_dispatch`: the records of the root flow.
-/

namespace MeasuredBoot

/-! ## Records -/

/-- The step that a record is about: the flow and its number in the run, the number and the text of the
step. -/
def StepRecord.heading (record : StepRecord) : String × Nat × Nat × String :=
  (record.flow, record.flowIndex, record.stepIndex, record.step)

/-- The record of a step that measured nothing and met no problem. -/
def StepRecord.quiet (flow : Flow) (flowIndex stepIndex : Nat) (step : Step) (actions : List Action) :
    StepRecord :=
  { flow := flow.name, flowIndex, stepIndex, step := step.text, actions, measured := [], issues := [] }

namespace Flow

/-- What the records of all steps of a flow are about, in order. -/
def headings (flow : Flow) (flowIndex : Nat) : List (String × Nat × Nat × String) :=
  flow.steps.mapIdx fun i step => (flow.name, flowIndex, i, step.text)

theorem drop_headings {flow : Flow} {i : Nat} {step : Step} (h : flow.steps[i]? = some step)
    (flowIndex : Nat) : (flow.headings flowIndex).drop i =
      (flow.name, flowIndex, i, step.text) :: (flow.headings flowIndex).drop (i + 1) := by
  obtain ⟨hi, rfl⟩ := List.getElem?_eq_some_iff.mp h
  have hlt : i < (flow.headings flowIndex).length := by rwa [headings, List.length_mapIdx]
  rw [List.drop_eq_getElem_cons hlt]
  congr 1
  exact List.getElem_mapIdx

/-- Records are about the steps of a flow from one of them on, in order and without gaps: at least about that
step, if there is one, and about all of them unless the run was aborted. -/
structure Recorded (flow : Flow) (flowIndex stepIndex : Nat) (status : RunStatus) (records : RunLog) :
    Prop where
  in_order : records.map (·.heading) <+: (flow.headings flowIndex).drop stepIndex
  ne_nil : stepIndex < flow.steps.length → records ≠ []
  complete : status = .finished → records.map (·.heading) = (flow.headings flowIndex).drop stepIndex

namespace Recorded

variable {flow : Flow} {flowIndex i : Nat} {status : RunStatus}

/-- There is no step left. -/
theorem nil (h : flow.steps[i]? = none) : flow.Recorded flowIndex i status [] := by
  have hlen : flow.steps.length ≤ i := List.getElem?_eq_none_iff.mp h
  refine ⟨List.nil_prefix, fun hi => absurd hlen (Nat.not_le_of_gt hi), fun _ => ?_⟩
  rw [List.drop_eq_nil_of_le (by rwa [headings, List.length_mapIdx])]
  rfl

/-- The record of a step before those of the following steps. -/
theorem cons {step : Step} {record : StepRecord} {records : RunLog} (hstep : flow.steps[i]? = some step)
    (hrecord : record.heading = (flow.name, flowIndex, i, step.text))
    (h : flow.Recorded flowIndex (i + 1) status records) :
    flow.Recorded flowIndex i status (record :: records) := by
  refine ⟨?_, fun _ => List.cons_ne_nil record records, fun hfinished => ?_⟩
  · rw [drop_headings hstep, List.map_cons, hrecord]
    exact (List.prefix_cons_inj _).mpr h.in_order
  · rw [drop_headings hstep, List.map_cons, hrecord, h.complete hfinished]

/-- The record of a step that aborts the run. -/
theorem singleton {step : Step} {record : StepRecord} (hstep : flow.steps[i]? = some step)
    (hrecord : record.heading = (flow.name, flowIndex, i, step.text)) (hstatus : status ≠ .finished) :
    flow.Recorded flowIndex i status [record] := by
  refine ⟨?_, fun _ => List.cons_ne_nil record [], fun h => absurd h hstatus⟩
  rw [drop_headings hstep, List.map_singleton, hrecord]
  exact (List.prefix_cons_inj _).mpr List.nil_prefix

end Recorded

namespace Stays

variable {flow : Flow} {run : Run} {step : Step}

/-- One step leaves its record, and the run stays in the flow. -/
theorem log_next (h : flow.Stays) (hdue : run.Due flow step) :
    ∃ record : StepRecord, record.heading = (flow.name, run.flowIndex, run.stepIndex, step.text) ∧
      run.next.1.log = run.log ++ [record] ∧
      (run.next.2 = true →
        run.next.1.flowIndex = run.flowIndex ∧ run.next.1.stepIndex = run.stepIndex + 1) ∧
      (run.next.2 = false → run.next.1.status ≠ .finished) := by
  cases hfailure : (run.take step).failure with
  | some reason =>
    rw [Run.next_of_failure hdue hfailure]
    exact ⟨_, rfl, rfl, nofun, nofun⟩
  | none =>
    rw [Run.next_of_take hdue hfailure, h.next_take (List.mem_of_getElem? hdue.2.2)]
    exact ⟨_, rfl, rfl, fun _ => ⟨rfl, rfl⟩, nofun⟩

/-- What a run adds to its log from the step on that is due, in a flow that it does not leave. -/
theorem log_finish (h : flow.Stays) (hopen : run.status.isTerminal = false)
    (hflow : run.machine.flow = some flow) :
    ∃ records : RunLog, run.finish.log = run.log ++ records ∧
      flow.Recorded run.flowIndex run.stepIndex run.finish.status records := by
  induction run using Run.finish.induct with
  | case1 run after hnext ih =>
    obtain hterminal | hends | ⟨other, step, hdue⟩ := run.due_cases
    · cases hopen.symm.trans hterminal
    · cases (Run.next_of_ends hends).symm.trans hnext
    obtain rfl : flow = other := Option.some.inj (hflow.symm.trans hdue.2.1)
    have hstays := h.flow_next hflow
    obtain ⟨record, hrecord, hlog, hmoves, -⟩ := h.log_next hdue
    rw [hnext] at hstays hlog hmoves
    obtain ⟨hflowIndex, hstepIndex⟩ := hmoves rfl
    have hrunning : after.status.isTerminal = false := by
      rw [Run.status_of_next hnext]
      rfl
    obtain ⟨records, hrecords, hrecorded⟩ := ih hrunning hstays
    rw [hflowIndex, hstepIndex] at hrecorded
    refine ⟨record :: records, ?_, ?_⟩
    · rw [Run.finish_of_next hnext, hrecords, hlog, List.append_assoc]
      rfl
    · rw [Run.finish_of_next hnext]
      exact hrecorded.cons hdue.2.2 hrecord
  | case2 run after hnext =>
    rw [Run.finish_of_last hnext]
    obtain hterminal | hends | ⟨other, step, hdue⟩ := run.due_cases
    · cases hopen.symm.trans hterminal
    · cases (Run.next_of_ends hends).symm.trans hnext
      exact ⟨[], (List.append_nil _).symm, .nil (hends.2 flow hflow)⟩
    · obtain rfl : flow = other := Option.some.inj (hflow.symm.trans hdue.2.1)
      obtain ⟨record, hrecord, hlog, -, hstatus⟩ := h.log_next hdue
      rw [hnext] at hlog hstatus
      exact ⟨[record], hlog, .singleton hdue.2.2 hrecord (hstatus rfl)⟩

end Stays

end Flow

/-! ## Looking for a platform -/

namespace Run

namespace At

variable {run : Run} {m : Machine} {flow other : Flow} {index : Nat} {condition : Condition} {step : Step}

theorem take_of_switch (h : run.At m flow index) (hholds : condition.holds m.artifacts = true) :
    run.take (.guarded condition (.switchTo other)) =
      { machine := m, performed := [.switchTo other], next := some other } := by
  rw [h.take_of_single (Step.actions_of_holds hholds)]
  rfl

/-- A step that switches to another flow, where its condition holds. -/
theorem log_switch (h : run.At m flow index)
    (hstep : flow.steps[index]? = some (.guarded condition (.switchTo other)))
    (hholds : condition.holds m.artifacts = true) :
    ∃ next : Run, run.finish = next.finish ∧ next.At { m with flow := some other } other 0 ∧
      next.flowIndex = run.flowIndex + 1 ∧
      next.log = run.log ++
        [.quiet flow run.flowIndex index (.guarded condition (.switchTo other)) [.switchTo other]] := by
  have htake : run.take (.guarded condition (.switchTo other)) = _ := h.take_of_switch hholds
  have hnext := next_of_take (h.due hstep) (by rw [htake])
  rw [htake] at hnext
  refine ⟨_, finish_of_next hnext, ⟨rfl, rfl, rfl, rfl⟩, rfl, ?_⟩
  rw [← h.stepIndex_eq]
  rfl

/-- A step whose condition does not hold. -/
theorem log_skip (h : run.At m flow index) (hstep : flow.steps[index]? = some (.guarded condition step))
    (hholds : condition.holds m.artifacts = false) :
    ∃ next : Run, run.finish = next.finish ∧ next.At m flow (index + 1) ∧
      next.flowIndex = run.flowIndex ∧
      next.log = run.log ++ [.quiet flow run.flowIndex index (.guarded condition step) []] := by
  have htake : run.take (.guarded condition step) = { machine := m } :=
    h.take_of_nothing (Step.actions_of_not_holds hholds)
  have hnext := next_of_take (h.due hstep) (by rw [htake])
  rw [htake] at hnext
  refine ⟨_, finish_of_next hnext, ⟨rfl, rfl, h.flow_eq, congrArg (· + 1) h.stepIndex_eq⟩, rfl, ?_⟩
  rw [← h.stepIndex_eq]
  rfl

/-- A step that gives up. -/
theorem finish_of_panic {message : String} (h : run.At m flow index)
    (hstep : flow.steps[index]? = some (.panic message)) :
    run.finish =
      { run with
        machine := m.finish
        log := run.log ++ [{ StepRecord.quiet flow run.flowIndex index (.panic message) [.panic message] with
          issues := [⟨some 0, true, .panic message⟩] }]
        status := .aborted (.panic message) } := by
  have htake : run.take (.panic message) =
      { machine := m, performed := [.panic message]
        issues := [⟨some 0, true, .panic message⟩], failure := some (.panic message) } := by
    rw [h.take_of_single rfl]
    rfl
  have hfailure : (run.take (.panic message)).failure = some (.panic message) := by rw [htake]
  rw [finish_of_last (next_of_failure (h.due hstep) hfailure), htake, ← h.stepIndex_eq]
  rfl

end At

/-- The root flow of a machine with a new module selects one platform. If the image has a Firmware Interface
Table, one step of the root flow is followed by steps of the Intel flow alone. If it has none, but has an
Embedded Firmware Structure, two steps of the root flow, the first of which does nothing, are followed by
steps of the AMD flow alone. Otherwise the records are those of the three steps of the root flow, the last of
which aborts the run, and no command is sent to the module. -/
theorem root_dispatch {algs : List Algorithm} {built : Tpm} {m : Machine} (hnew : built.IsNew algs)
    (hm : m.tpm = some built) :
    let run := (withFlow m Flow.root).finish
    let lookForFit : Step := .guarded .fitPresent (.switchTo Flow.intel)
    let lookForEfs : Step := .guarded .embeddedFirmwarePresent (.switchTo Flow.amd)
    let giveUp : BootError := .panic "unknown flow: neither AMD nor Intel"
    (m.artifacts.Finds Fit.read → ∃ records,
      run.log = .quiet Flow.root 0 0 lookForFit [.switchTo Flow.intel] :: records ∧
      Flow.intel.Recorded 1 0 run.status records) ∧
    (¬m.artifacts.Finds Fit.read → m.artifacts.Finds EmbeddedFirmware.find → ∃ records,
      run.log = .quiet Flow.root 0 0 lookForFit [] ::
        .quiet Flow.root 0 1 lookForEfs [.switchTo Flow.amd] :: records ∧
      Flow.amd.Recorded 1 0 run.status records) ∧
    (¬m.artifacts.Finds Fit.read → ¬m.artifacts.Finds EmbeddedFirmware.find →
      run.log = [.quiet Flow.root 0 0 lookForFit [], .quiet Flow.root 0 1 lookForEfs [],
        { StepRecord.quiet Flow.root 0 2 (.panic "unknown flow: neither AMD nor Intel")
            [.panic "unknown flow: neither AMD nor Intel"] with issues := [⟨some 0, true, giveUp⟩] }] ∧
      run.status = .aborted giveUp ∧
      run.machine.tpm = some built.finish ∧ built.commandLog = []) := by
  intro run lookForFit lookForEfs giveUp
  have hfirst : (withFlow m Flow.root).At { m with flow := some Flow.root } Flow.root 0 :=
    ⟨rfl, rfl, rfl, rfl⟩
  have hskip (hfit : ¬m.artifacts.Finds Fit.read) :=
    hfirst.log_skip rfl (Condition.imageHas_eq_false hfit)
  refine ⟨fun hfit => ?_, fun hfit hefs => ?_, fun hfit hefs => ?_⟩
  · obtain ⟨next, hnext, hat, hindex, hlog⟩ :=
      hfirst.log_switch rfl (Condition.imageHas_eq_true_iff.mpr hfit)
    obtain ⟨records, hrecords, hrecorded⟩ :=
      Flow.intel_stays.log_finish hat.isTerminal_eq (hat.machine_eq ▸ rfl)
    rw [hlog] at hrecords
    rw [hindex, hat.stepIndex_eq] at hrecorded
    rw [show run = next.finish from hnext]
    exact ⟨records, hrecords, hrecorded⟩
  · obtain ⟨second, hsecond, hat, hindex, hlog⟩ := hskip hfit
    obtain ⟨next, hnext, hat', hindex', hlog'⟩ :=
      hat.log_switch rfl (Condition.imageHas_eq_true_iff.mpr hefs)
    obtain ⟨records, hrecords, hrecorded⟩ :=
      Flow.amd_stays.log_finish hat'.isTerminal_eq (hat'.machine_eq ▸ rfl)
    rw [hlog', hlog, hindex] at hrecords
    rw [hindex', hindex, hat'.stepIndex_eq] at hrecorded
    rw [show run = next.finish from hsecond.trans hnext]
    exact ⟨records, hrecords, hrecorded⟩
  · obtain ⟨second, hsecond, hat, hindex, hlog⟩ := hskip hfit
    obtain ⟨third, hthird, hat', hindex', hlog'⟩ :=
      hat.log_skip rfl (Condition.imageHas_eq_false hefs)
    obtain ⟨-, rfl⟩ := Tpm.of_withAlgorithms hnew.withAlgorithms
    have hfinish := (hsecond.trans hthird).trans (hat'.finish_of_panic rfl)
    rw [show run = _ from hfinish, hlog', hlog, hindex', hindex]
    exact ⟨rfl, rfl, congrArg (Option.map Tpm.finish) hm, rfl⟩

/-- An image with a Firmware Interface Table, a flash image with an Embedded Firmware Structure, and no image
at all. -/
theorem root_dispatch_strayMachine :
    (∃ records, (withFlow strayMachine Flow.root).finish.log =
        .quiet Flow.root 0 0 (.guarded .fitPresent (.switchTo Flow.intel)) [.switchTo Flow.intel] ::
          records ∧
      records ≠ [] ∧ ∀ record ∈ records, record.flow = "intel" ∧ record.flowIndex = 1) ∧
    (∃ records, (withFlow (Machine.ofImage plainFlash) Flow.root).finish.log =
        .quiet Flow.root 0 0 (.guarded .fitPresent (.switchTo Flow.intel)) [] ::
          .quiet Flow.root 0 1 (.guarded .embeddedFirmwarePresent (.switchTo Flow.amd))
            [.switchTo Flow.amd] :: records ∧
      records ≠ [] ∧ ∀ record ∈ records, record.flow = "amd" ∧ record.flowIndex = 1) ∧
    (withFlow { tpm := some Tpm.fresh } Flow.root).finish.log.map (·.flow) = ["root", "root", "root"] ∧
    (withFlow { tpm := some Tpm.fresh } Flow.root).finish.status =
      .aborted (.panic "unknown flow: neither AMD nor Intel") := by
  have hnew : Tpm.IsNew Tpm.defaultAlgorithms Tpm.fresh := .inl ⟨rfl, rfl⟩
  obtain ⟨hintel, -⟩ := root_dispatch (m := strayMachine) hnew rfl
  obtain ⟨-, hamd, -⟩ := root_dispatch (m := Machine.ofImage plainFlash) hnew rfl
  obtain ⟨-, -, hnone⟩ := root_dispatch (m := { tpm := some Tpm.fresh }) hnew rfl
  obtain ⟨records, hlog, hrecorded⟩ := hintel ⟨strayImage, _, rfl, TableLayout.stray.read_image⟩
  obtain ⟨flashRecords, hflashLog, hflashRecorded⟩ :=
    hamd (Artifacts.not_finds_of_error rfl read_fit_plainFlash) ⟨plainFlash, _, rfl, find_plainFlash⟩
  have hnothing {α : Type} (find : BiosImage → Except SourceError α) :
      ¬Artifacts.Finds { } find := fun ⟨_, _, himage, _⟩ => nomatch himage
  obtain ⟨hthree, hstatus, -⟩ := hnone (hnothing _) (hnothing _)
  have hheadings : ∀ heading ∈ Flow.intel.headings 1, heading.1 = "intel" ∧ heading.2.1 = 1 := by decide
  have hflashHeadings : ∀ heading ∈ Flow.amd.headings 1, heading.1 = "amd" ∧ heading.2.1 = 1 := by decide
  exact ⟨⟨records, hlog, hrecorded.ne_nil (by decide), fun record hmem =>
      hheadings _ (hrecorded.in_order.subset (List.mem_map_of_mem hmem))⟩,
    ⟨flashRecords, hflashLog, hflashRecorded.ne_nil (by decide), fun record hmem =>
      hflashHeadings _ (hflashRecorded.in_order.subset (List.mem_map_of_mem hmem))⟩,
    congrArg (List.map StepRecord.flow) hthree, hstatus⟩

end Run

end MeasuredBoot
