import MeasuredBoot.Proofs.Run.Finish

/-!
# Walking through a flow

Where a run stands is its machine, the flow of the machine and the number of the next step (`Run.At`). A
run gets from there to the next step, with what the actions of the step did, if none of them fails.

* `Run.At.advance`, `Run.At.stop`: a step that does not fail, and one that does;
* `Run.At.single`, `Run.At.nothing`: a step with one action, and one without, of a run that finishes;
* `Run.At.finish`: the end of the flow;
* `Flow.Stays.flow_finish`: a flow that does not switch to another one is the last one.
-/

namespace MeasuredBoot

namespace Step

variable {as : Artifacts} {condition : Condition} {step : Step}

theorem actions_of_holds (h : condition.holds as = true) :
    (guarded condition step).actions as = step.actions as := by
  rw [Step.actions, if_pos h]

theorem actions_of_not_holds (h : condition.holds as = false) :
    (guarded condition step).actions as = .ok [] := by
  rw [Step.actions, h]
  rfl

end Step

namespace Run

/-- All problems that came up so far. -/
def issues (run : Run) : List StepIssue := run.log.flatMap (·.issues)

theorem issues_record (run : Run) (flow : Flow) (step : Step) (p : Progress) :
    (run.record flow step p).issues = run.issues ++ p.issues := by
  show List.flatMap StepRecord.issues (run.log ++ [_]) = _
  rw [List.flatMap_append, List.flatMap_singleton]
  rfl

/-- The run is not over, and has a given machine, the flow of which stands at a given step. -/
structure At (run : Run) (machine : Machine) (flow : Flow) (index : Nat) : Prop where
  isTerminal_eq : run.status.isTerminal = false
  machine_eq : run.machine = machine
  flow_eq : machine.flow = some flow
  stepIndex_eq : run.stepIndex = index

/-- Where a run stands after a step, by the flow that the step switched to. -/
def Moves (run : Run) (machine : Machine) (flow : Flow) (index : Nat) : Option Flow → Prop
  | none => run.At machine flow (index + 1)
  | some other => run.At { machine with flow := some other } other 0

namespace At

variable {run : Run} {machine : Machine} {flow : Flow} {index : Nat} {step : Step}

theorem due (h : run.At machine flow index) (hstep : flow.steps[index]? = some step) :
    run.Due flow step :=
  ⟨h.isTerminal_eq, h.machine_eq ▸ h.flow_eq, h.stepIndex_eq ▸ hstep⟩

theorem take_of_single {action : Action} (h : run.At machine flow index)
    (hactions : step.actions machine.artifacts = .ok [action]) :
    run.take step = ({ machine } : Progress).act (run.actor step) 0 action := by
  rw [Run.take, h.machine_eq, hactions]
  dsimp only [Progress.perform]
  split <;> rfl

theorem take_of_nothing (h : run.At machine flow index) (hactions : step.actions machine.artifacts = .ok []) :
    run.take step = { machine } := by
  rw [Run.take, h.machine_eq, hactions]
  rfl

/-- A step that does not fail. -/
theorem advance (h : run.At machine flow index) (hstep : flow.steps[index]? = some step)
    (hok : (run.take step).failure = none) : ∃ next : Run, run.finish = next.finish ∧
      next.Moves (run.take step).machine flow index (run.take step).next ∧
      next.issues = run.issues ++ (run.take step).issues := by
  refine ⟨_, finish_of_next (next_of_take (h.due hstep) hok), ?_, ?_⟩
  · cases (run.take step).next with
    | none =>
      refine ⟨rfl, rfl, ?_, congrArg (· + 1) h.stepIndex_eq⟩
      rw [flow_take, h.machine_eq, h.flow_eq]
    | some other => exact ⟨rfl, rfl, rfl, rfl⟩
  · rw [← run.issues_record flow step]
    cases (run.take step).next <;> rfl

/-- A step that fails. -/
theorem stop {reason : BootError} (h : run.At machine flow index) (hstep : flow.steps[index]? = some step)
    (hfailure : (run.take step).failure = some reason) :
    run.finish.status = .aborted reason ∧ run.finish.issues = run.issues ++ (run.take step).issues := by
  rw [finish_of_last (next_of_failure (h.due hstep) hfailure)]
  exact ⟨rfl, run.issues_record flow step _⟩

/-- A step of a run that finishes. -/
theorem take (h : run.At machine flow index) (hstep : flow.steps[index]? = some step)
    (hfinished : run.finish.status = .finished) :
    (run.take step).failure = none ∧ ∃ next : Run, run.finish = next.finish ∧
      next.Moves (run.take step).machine flow index (run.take step).next := by
  cases hfailure : (run.take step).failure with
  | some reason => cases (h.stop hstep hfailure).1.symm.trans hfinished
  | none =>
    obtain ⟨next, hnext, hmoves, -⟩ := h.advance hstep hfailure
    exact ⟨rfl, next, hnext, hmoves⟩

/-- A step with one action. -/
theorem single {action : Action} (h : run.At machine flow index)
    (hstep : flow.steps[index]? = some step) (hactions : step.actions machine.artifacts = .ok [action])
    (hfinished : run.finish.status = .finished) :
    ∃ actor after outcome, action.apply machine actor = (after, .ok outcome) ∧
      ∃ next : Run, run.finish = next.finish ∧ next.Moves after flow index outcome.flow? := by
  obtain ⟨hok, next, hnext, hmoves⟩ := h.take hstep hfinished
  rw [h.take_of_single hactions] at hok hmoves
  cases happly : action.apply machine (run.actor step 0) with
  | mk after result =>
    rw [Progress.act, happly] at hok hmoves
    cases result with
    | error e => cases hok
    | ok outcome =>
      refine ⟨_, after, outcome, happly, next, hnext, ?_⟩
      rw [Progress.machine_note, Progress.next_note, Option.or_none] at hmoves
      exact hmoves

/-- A step without actions. -/
theorem nothing (h : run.At machine flow index) (hstep : flow.steps[index]? = some step)
    (hactions : step.actions machine.artifacts = .ok []) (hfinished : run.finish.status = .finished) :
    ∃ next : Run, run.finish = next.finish ∧ next.At machine flow (index + 1) := by
  obtain ⟨-, next, hnext, hmoves⟩ := h.take hstep hfinished
  rw [h.take_of_nothing hactions] at hmoves
  exact ⟨next, hnext, hmoves⟩

theorem ends (h : run.At machine flow index) (hend : flow.steps[index]? = none) : run.Ends := by
  refine ⟨h.isTerminal_eq, fun other hother => ?_⟩
  rw [h.machine_eq, h.flow_eq] at hother
  rw [← Option.some.inj hother, h.stepIndex_eq, hend]

/-- The end of the flow. -/
theorem finish (h : run.At machine flow index) (hend : flow.steps[index]? = none) :
    run.finish.machine = machine.finish := by
  rw [finish_of_last (next_of_ends (h.ends hend)), close, h.machine_eq]

end At

end Run

/-- No step of the flow switches to another flow. -/
def Flow.Stays (flow : Flow) : Prop :=
  ∀ step ∈ flow.steps, ∀ as actions, step.actions as = .ok actions →
    ∀ other, Action.switchTo other ∉ actions

namespace Flow.Stays

variable {flow : Flow}

theorem next_take (h : flow.Stays) {run : Run} {step : Step} (hstep : step ∈ flow.steps) :
    (run.take step).next = none := by
  rw [Run.take]
  cases hactions : step.actions run.machine.artifacts with
  | error e => rfl
  | ok actions =>
    dsimp only
    cases hnext : (Progress.perform { machine := run.machine } (run.actor step) 0 actions).next with
    | none => rfl
    | some other =>
      obtain hmem | hnone := Progress.next_perform hnext
      · exact absurd hmem (h step hstep _ actions hactions other)
      · cases hnone

theorem flow_next (h : flow.Stays) {run : Run} (hflow : run.machine.flow = some flow) :
    run.next.1.machine.flow = some flow := by
  obtain hterminal | hends | ⟨other, step, hdue⟩ := run.due_cases
  · rw [Run.next_of_isTerminal hterminal]
    exact hflow
  · rw [Run.next_of_ends hends]
    exact hflow
  · obtain rfl : flow = other := Option.some.inj (hflow.symm.trans hdue.2.1)
    have htake : (run.take step).machine.flow = some flow := (run.flow_take step).trans hflow
    cases hfailure : (run.take step).failure with
    | some reason =>
      rw [Run.next_of_failure hdue hfailure]
      exact htake
    | none =>
      rw [Run.next_of_take hdue hfailure, h.next_take (List.mem_of_getElem? hdue.2.2)]
      exact htake

/-- A run does not leave the flow. -/
theorem flow_finish (h : flow.Stays) {run : Run} (hflow : run.machine.flow = some flow) :
    run.finish.machine.flow = some flow :=
  Run.finish_induction (P := fun run => run.machine.flow = some flow) (fun _ => h.flow_next) hflow

end Flow.Stays

end MeasuredBoot
