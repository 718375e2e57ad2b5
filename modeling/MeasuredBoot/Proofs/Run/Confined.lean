import MeasuredBoot.Proofs.Firmware.Agreement
import MeasuredBoot.Proofs.Firmware.TableImage
import MeasuredBoot.Proofs.Run.Dispatch
import MeasuredBoot.Proofs.Run.Lockstep
import MeasuredBoot.Proofs.Run.Status

/-!
# Runs that depend on what they measure alone

A run of the root flow on an image with a Firmware Interface Table does not tell apart images that agree on
the table, the pointer to it and the initial boot block, nor snapshots with the same policy status: all other
bytes and registers have no influence on the status, on the records and on the module.

* `Machine.Swapped`: machines that are the same apart from their artifacts;
* `Action.parallel_swapped`: an action goes the same way for both if its source gives the same data and bytes;
* `Step.parallel_of_intel`: so does every step of the Intel flow;
* `Run.root_confined`: the whole run.
-/

namespace MeasuredBoot

variable {as as' : Artifacts}

/-- What an action measures, if it does. -/
def Action.source? : Action → Option DataSource
  | .extend _ source => some source
  | .event _ source _ => some source
  | .switchTo _ => none
  | .panic _ => none
  | .initTpm _ => none

namespace Machine

/-- A machine with some artifacts, and the same machine with other artifacts. -/
structure Swapped (as as' : Artifacts) (m other : Machine) : Prop where
  artifacts_eq : m.artifacts = as
  other_eq : other = { m with artifacts := as' }

theorem lockstep_swapped : Lockstep (Swapped as as') where
  flow_eq h := by rw [h.other_eq]
  flow _ h := ⟨h.artifacts_eq, by rw [h.other_eq]⟩
  finish h := ⟨h.artifacts_eq, by rw [h.other_eq]; rfl⟩

theorem withTpm_withArtifacts (m : Machine) (act : Tpm → Tpm × Except TpmError Unit) :
    { m with artifacts := as }.withTpm act =
      ({ (m.withTpm act).1 with artifacts := as }, (m.withTpm act).2) := by
  obtain ⟨_, tpm, _, _⟩ := m
  cases tpm <;> rfl

/-- A measurement does not look at the artifacts. -/
theorem measure_withArtifacts (m : Machine) (kind : EventKind) (pcr : UInt8) (bytes : ByteArray)
    (description : String) (record : MeasuredData) :
    { m with artifacts := as }.measure kind pcr bytes description record =
      ({ (m.measure kind pcr bytes description record).1 with artifacts := as },
        (m.measure kind pcr bytes description record).2) := by
  rw [measure, measure, withTpm_withArtifacts]
  cases m.withTpm _ with
  | mk after result => cases result <;> rfl

end Machine

theorem Action.apply_withArtifacts {m : Machine} {actor : Actor} {action : Action}
    (h : ∀ source, action.source? = some source → source.fetch m.artifacts = source.fetch as) :
    action.apply { m with artifacts := as } actor =
      ({ (action.apply m actor).1 with artifacts := as }, (action.apply m actor).2) := by
  cases action with
  | switchTo flow => rfl
  | panic message => rfl
  | initTpm locality =>
    rw [Action.apply, Action.apply, Machine.withTpm_withArtifacts]
  | extend pcr source =>
    rw [Action.apply, Action.apply, ← h source rfl]
    cases source.fetch m.artifacts with
    | error e => rfl
    | ok fetched =>
      dsimp only
      split
      · rfl
      · exact m.measure_withArtifacts ..
  | event pcr source description =>
    rw [Action.apply, Action.apply, ← h source rfl]
    cases source.fetch m.artifacts with
    | error e => rfl
    | ok fetched => exact m.measure_withArtifacts ..

/-- An action that measures the same data and bytes has the same outcome. -/
theorem Action.parallel_swapped {action : Action}
    (h : ∀ source, action.source? = some source → source.fetch as = source.fetch as') :
    action.Parallel (Machine.Swapped as as') := by
  rintro m _ actor ⟨rfl, rfl⟩
  rw [Action.apply_withArtifacts h]
  exact ⟨rfl, Machine.steady_artifacts _ (action.effect_apply m actor) rfl, rfl⟩

/-- A step that gives the same actions, which measure the same data and bytes. -/
theorem Step.parallel_swapped {step : Step} {actions : List Action} (hactions : step.actions as = .ok actions)
    (hactions' : step.actions as' = .ok actions)
    (h : ∀ action ∈ actions, ∀ source, action.source? = some source → source.fetch as = source.fetch as') :
    step.Parallel (Machine.Swapped as as') := by
  rintro m _ ⟨rfl, rfl⟩
  refine ⟨hactions.trans hactions'.symm, fun others hothers action hmem => ?_⟩
  refine Action.parallel_swapped (h action ?_)
  rwa [Except.ok.inj (hactions.symm.trans hothers)]

/-- A step of the Intel flow, where its two sources give the same data and bytes. -/
theorem Step.parallel_of_intel
    (hstatus : DataSource.fetch (.probe .pcr0Data) as = DataSource.fetch (.probe .pcr0Data) as')
    (hblock : DataSource.fetch (.probe .ibb) as = DataSource.fetch (.probe .ibb) as') {step : Step}
    (h : step ∈ Flow.intel.steps) : step.Parallel (Machine.Swapped as as') := by
  have hsteps : Flow.intel.steps = [.initTpm 3, .platform .pcr0Data, .platform .ibb] := rfl
  rw [hsteps] at h
  simp only [List.mem_cons, List.not_mem_nil, or_false] at h
  obtain rfl | rfl | rfl := h
  · refine Step.parallel_swapped rfl rfl (List.forall_mem_singleton.mpr ?_)
    rintro _ ⟨⟩
  · refine Step.parallel_swapped rfl rfl (List.forall_mem_singleton.mpr ?_)
    rintro _ ⟨⟩
    exact hstatus
  · refine Step.parallel_swapped rfl rfl (List.forall_mem_singleton.mpr ?_)
    rintro _ ⟨⟩
    exact hblock

namespace Run

/-- In a run of the root flow on an image with a Firmware Interface Table only the first step is not one of the
Intel flow. -/
theorem eq_or_flow_of_reaches {m : Machine} {point : Run} (hfit : Condition.fitPresent.holds m.artifacts = true)
    (h : (withFlow m Flow.root).Reaches point) :
    point = withFlow m Flow.root ∨ point.machine.flow = some Flow.intel := by
  induction h with
  | start => exact .inl rfl
  | next _ ih =>
    obtain rfl | hintel := ih
    · have hat : (withFlow m Flow.root).At { m with flow := some Flow.root } Flow.root 0 := ⟨rfl, rfl, rfl, rfl⟩
      have htake : (withFlow m Flow.root).take (.guarded .fitPresent (.switchTo Flow.intel)) = _ :=
        hat.take_of_switch hfit
      have hdue : (withFlow m Flow.root).Due Flow.root (.guarded .fitPresent (.switchTo Flow.intel)) :=
        hat.due rfl
      rw [next_of_take hdue (by rw [htake]), htake]
      exact .inr rfl
    · exact .inr (Flow.intel_stays.flow_next hintel)

/-- Runs of the root flow on images that agree on the Firmware Interface Table of the first one, the pointer to
it and the initial boot block, and on snapshots with the same policy status or none, have the same status, the
same records, and leave the same module behind: its PCRs, event log and command log. -/
theorem root_confined {image other : BiosImage} {fit : Fit} {rs rs' : Registers}
    (hfit : Fit.read image = .ok fit) (hagrees : fit.Agrees image other)
    (hstatus : rs.get? .acmPolicyStatus = rs'.get? .acmPolicyStatus) (tpm : Tpm) :
    let run := (withFlow
      { artifacts := { image := some image, snapshot := some rs }, tpm := some tpm } Flow.root).finish
    let run' := (withFlow
      { artifacts := { image := some other, snapshot := some rs' }, tpm := some tpm } Flow.root).finish
    run.status = run'.status ∧ run.log = run'.log ∧ run.machine.tpm = run'.machine.tpm := by
  let as : Artifacts := { image := some image, snapshot := some rs }
  let as' : Artifacts := { image := some other, snapshot := some rs' }
  let m : Machine := { artifacts := as, tpm := some tpm }
  have hholds : Condition.fitPresent.holds as = true :=
    Condition.imageHas_eq_true_iff.mpr ⟨image, fit, rfl, hfit⟩
  have hholds' : Condition.fitPresent.holds as' = true :=
    Condition.imageHas_eq_true_iff.mpr ⟨other, fit, rfl, Fit.read_congr hfit hagrees⟩
  have hpcr0Data : DataSource.fetch (.probe .pcr0Data) as = DataSource.fetch (.probe .pcr0Data) as' :=
    DataSource.fetch_pcr0Data_congr rfl rfl rfl rfl hfit hagrees hstatus
  have hibb : DataSource.fetch (.probe .ibb) as = DataSource.fetch (.probe .ibb) as' :=
    DataSource.fetch_ibb_congr rfl rfl hfit hagrees
  have hswitch : Step.Parallel (Machine.Swapped as as') (.guarded .fitPresent (.switchTo Flow.intel)) := by
    refine Step.parallel_swapped (Step.actions_of_holds hholds) (Step.actions_of_holds hholds') ?_
    refine List.forall_mem_singleton.mpr ?_
    rintro _ ⟨⟩
  have hsteps (point : Run) (hpoint : (withFlow m Flow.root).Reaches point) (flow : Flow) (step : Step)
      (hdue : point.Due flow step) : step.Parallel (Machine.Swapped as as') := by
    obtain rfl | hintel := eq_or_flow_of_reaches hholds hpoint
    · obtain ⟨-, hflow, hstep⟩ := hdue
      cases hflow
      cases hstep
      exact hswitch
    · obtain ⟨-, hflow, hstep⟩ := hdue
      cases hintel.symm.trans hflow
      exact Step.parallel_of_intel hpcr0Data hibb (List.mem_of_getElem? hstep)
  have hstart : (withFlow m Flow.root).InStep (Machine.Swapped as as')
      (withFlow { m with artifacts := as' } Flow.root) := InStep.ofMachine ⟨rfl, rfl⟩
  obtain ⟨⟨-, hmachine⟩, hlog, -, -, hstatus⟩ := hstart.finish Machine.lockstep_swapped hsteps
  exact ⟨hstatus, hlog, (congrArg Machine.tpm hmachine).symm⟩

/-- The small image with other bytes behind the boot block and behind the pointer. -/
def scribbledImage : BiosImage := TableLayout.image
  { entry := TableLayout.small.entry
    body := Bytes.replicate 16 0x5A ++ Bytes.replicate 16 0xA5
    rest := Bytes.replicate 56 0xFF }

theorem root_confined_scribbledImage :
    let rs : Registers := { acmPolicyStatus := some 7, btgSacmInfo := some 1 }
    let rs' : Registers := { acmPolicyStatus := some 7, txtErrorCode := some 2 }
    let run := (withFlow
      { artifacts := { image := some smallImage, snapshot := some rs }, tpm := some Tpm.fresh }
      Flow.root).finish
    let run' := (withFlow
      { artifacts := { image := some scribbledImage, snapshot := some rs' }, tpm := some Tpm.fresh }
      Flow.root).finish
    smallImage.bytes ≠ scribbledImage.bytes ∧ run.status = .finished ∧ run'.status = .finished ∧
      run.log = run'.log ∧ run.machine.tpm = run'.machine.tpm := by
  intro rs rs' run run'
  let region : FitEntry := TableLayout.small.entry
  let fit : Fit := ⟨TableLayout.tableAddress, 0, [region]⟩
  have hfit : Fit.read smallImage = .ok fit := TableLayout.small.read_image
  have hagrees : fit.Agrees smallImage scribbledImage := by
    refine ⟨by decide +kernel, by decide +kernel, by decide +kernel, fun e he offset hoffset => ?_⟩
    have hregion : fit.entriesOfType FitEntry.biosStartupModule = [region] := by decide +kernel
    rw [hregion] at he
    obtain rfl := List.mem_singleton.mp he
    have hplace : AddressMapper.physMem.offsetOfBytes? smallImage.size region.address
        (16 * region.size.toNat) = some 32 := by decide +kernel
    obtain rfl := Option.some.inj (hplace.symm.trans hoffset)
    decide +kernel
  have hfinished : run.status = .finished := by
    have hover : ((withFlow
        { artifacts := { image := some smallImage, snapshot := some rs }, tpm := some Tpm.fresh }
        Flow.root).stepped 5).status = .finished := by decide +kernel
    rw [show run = _ from finish_eq_stepped (by rw [hover]; rfl)]
    exact hover
  obtain ⟨hstatus, hlog, htpm⟩ :=
    root_confined hfit hagrees (show rs.get? .acmPolicyStatus = rs'.get? .acmPolicyStatus by rfl) Tpm.fresh
  exact ⟨by decide +kernel, hfinished, hstatus.symm.trans hfinished, hlog, htpm⟩

end Run

end MeasuredBoot
