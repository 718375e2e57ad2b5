import MeasuredBoot.Run.Record

/-!
# Runs

A `Run` carries out the flow of a machine, step by step.

* `Run.next`: one step; tells whether there may be another one;
* `Run.budget`, `Run.budget_next_lt`: a bound for the number of steps that are left, which every
  step lowers;
* `Run.finish`: the run after its last step.
-/

namespace MeasuredBoot

/-- The state of carrying out the actions of one step. -/
structure Progress where
  machine : Machine
  /-- The actions so far. -/
  performed : List Action := []
  measured : List MeasuredData := []
  issues : List StepIssue := []
  /-- The last flow that an action switched to. -/
  next : Option Flow := none
  /-- The problem that aborts the run. -/
  failure : Option BootError := none

namespace Progress

/-- Notes the outcome of an action. -/
def note (p : Progress) (index : Nat) : Outcome → Progress
  | .done => p
  | .measured m => { p with measured := p.measured ++ [m] }
  | .skipped issue => { p with issues := p.issues ++ [⟨some index, false, issue⟩] }
  | .switched flow => { p with next := some flow }

/-- Notes a problem that aborts the run. -/
def fail (p : Progress) (actionIndex : Option Nat) (reason : BootError) : Progress :=
  { p with issues := p.issues ++ [⟨actionIndex, true, reason⟩], failure := some reason }

/-- Carries out one action. -/
def act (p : Progress) (actor : Nat → Actor) (index : Nat) (action : Action) : Progress :=
  match action.apply p.machine (actor index) with
  | (machine, .ok outcome) =>
    { p with machine, performed := p.performed ++ [action] }.note index outcome
  | (machine, .error reason) =>
    { p with machine, performed := p.performed ++ [action] }.fail (some index) reason

/-- Carries out actions in order up to the first one that fails, where the first of them has
`index`. -/
def perform (p : Progress) (actor : Nat → Actor) (index : Nat) : List Action → Progress
  | [] => p
  | action :: rest =>
    let after := p.act actor index action
    match after.failure with
    | some _ => after
    | none => after.perform actor (index + 1) rest

end Progress

/-- A machine that boots. -/
structure Run where
  machine : Machine
  log : RunLog := []
  /-- The number of flows that were switched to. -/
  flowIndex : Nat := 0
  /-- The number of the next step of the flow. -/
  stepIndex : Nat := 0
  status : RunStatus := .notStarted

namespace Run

/-- The run of a machine with the flow that it has. -/
def ofMachine (machine : Machine) : Run := { machine }

/-- The run of a machine with a given flow. -/
def withFlow (machine : Machine) (flow : Flow) : Run :=
  { machine := { machine with flow := some flow } }

/-- The actor of an action of the step that is due. -/
def actor (run : Run) (step : Step) (actionIndex : Nat) : Actor :=
  ⟨step.text, ⟨run.flowIndex, run.stepIndex, actionIndex⟩⟩

/-- Carries out the actions of a step that is due. -/
def take (run : Run) (step : Step) : Progress :=
  let p : Progress := { machine := run.machine }
  match step.actions run.machine.artifacts with
  | .error reason => p.fail none reason
  | .ok actions => p.perform (run.actor step) 0 actions

/-- The run with a step recorded. -/
def record (run : Run) (flow : Flow) (step : Step) (p : Progress) : Run :=
  { run with
    machine := p.machine
    log := run.log ++ [{
      flow := flow.name, flowIndex := run.flowIndex, stepIndex := run.stepIndex, step := step.text
      actions := p.performed, measured := p.measured, issues := p.issues }] }

/-- Ends a run. -/
def close (run : Run) (status : RunStatus) : Run :=
  { run with machine := run.machine.finish, status }

/-- Goes on to the flow that a step switched to, or else to the following step. -/
def proceed (run : Run) : Option Flow → Run
  | some flow =>
    { run with
      machine := { run.machine with flow := some flow }
      flowIndex := run.flowIndex + 1, stepIndex := 0, status := .running }
  | none => { run with stepIndex := run.stepIndex + 1, status := .running }

/-- Carries out the step that is due, and tells whether the run goes on. -/
def next (run : Run) : Run × Bool :=
  if run.status.isTerminal then (run, false)
  else
    match run.machine.flow with
    | none => (run.close .finished, false)
    | some flow =>
      match flow.steps[run.stepIndex]? with
      | none => (run.close .finished, false)
      | some step =>
        let p := run.take step
        match p.failure with
        | some reason => ((run.record flow step p).close (.aborted reason), false)
        | none => ((run.record flow step p).proceed p.next, true)

/-- A bound for the number of steps that are left. -/
def budget (run : Run) : Nat :=
  match run.machine.flow with
  | some flow => stepsCount (flow.steps.drop run.stepIndex)
  | none => 0

end Run

namespace Progress

@[simp] theorem machine_note (p : Progress) (index : Nat) (outcome : Outcome) :
    (p.note index outcome).machine = p.machine := by
  cases outcome <;> rfl

@[simp] theorem flow_act (p : Progress) (actor : Nat → Actor) (index : Nat) (action : Action) :
    (p.act actor index action).machine.flow = p.machine.flow := by
  have h := action.flow_apply p.machine (actor index)
  simp only [act]
  split <;> rename_i heq <;> rw [heq] at h
  · simpa using h
  · exact h

theorem flow_perform (p : Progress) (actor : Nat → Actor) (index : Nat) (actions : List Action) :
    (p.perform actor index actions).machine.flow = p.machine.flow := by
  induction actions generalizing p index with
  | nil => rfl
  | cons action rest ih =>
    simp only [perform]
    split
    · exact flow_act ..
    · rw [ih, flow_act]

theorem next_act {p : Progress} {actor : Nat → Actor} {index : Nat} {action : Action} {flow : Flow}
    (h : (p.act actor index action).next = some flow) :
    action = .switchTo flow ∨ p.next = some flow := by
  simp only [act] at h
  split at h
  · rename_i outcome heq
    cases outcome with
    | switched other =>
      cases h
      exact .inl (Action.eq_switchTo_of_apply (congrArg (·.2) heq))
    | done | measured | skipped => exact .inr h
  · exact .inr h

theorem next_perform {p : Progress} {actor : Nat → Actor} {index : Nat} {actions : List Action}
    {flow : Flow} (h : (p.perform actor index actions).next = some flow) :
    .switchTo flow ∈ actions ∨ p.next = some flow := by
  induction actions generalizing p index with
  | nil => exact .inr h
  | cons action rest ih =>
    have step (h : (p.act actor index action).next = some flow) :
        .switchTo flow ∈ action :: rest ∨ p.next = some flow := by
      rcases next_act h with rfl | hp
      · exact .inl List.mem_cons_self
      · exact .inr hp
    simp only [perform] at h
    split at h
    · exact step h
    · exact (ih h).elim (fun hmem => .inl (List.mem_cons_of_mem _ hmem)) step

end Progress

namespace Run

theorem flow_take (run : Run) (step : Step) : (run.take step).machine.flow = run.machine.flow := by
  simp only [take]
  split
  · rfl
  · exact Progress.flow_perform ..

theorem stepCount_of_take {run : Run} {step : Step} {flow : Flow}
    (h : (run.take step).next = some flow) : flow.stepCount ≤ step.switchCount := by
  simp only [take] at h
  split at h
  · contradiction
  · rename_i hactions
    rcases Progress.next_perform h with hmem | hnone
    · exact step.stepCount_le hactions hmem
    · contradiction

/-- A step that is not the last one lowers the bound for the steps that are left. -/
theorem budget_next_lt {run after : Run} (h : run.next = (after, true)) :
    after.budget < run.budget := by
  simp only [next] at h
  repeat' split at h
  all_goals cases h
  rename_i flow hflow _ step hstep _ _
  have hbudget : run.budget =
      1 + step.switchCount + stepsCount (flow.steps.drop (run.stepIndex + 1)) := by
    rw [budget, hflow]
    exact stepsCount_drop hstep
  rw [hbudget]
  cases hnext : (run.take step).next with
  | none =>
    simp only [proceed, budget, record, flow_take, hflow]
    omega
  | some other =>
    have := stepCount_of_take hnext
    cases other with
    | mk name steps =>
      rw [Flow.stepCount] at this
      simp only [proceed, budget, Flow.steps, List.drop_zero]
      omega

/-- The run after its last step. -/
def finish (run : Run) : Run :=
  match _ : run.next with
  | (after, true) => after.finish
  | (after, false) => after
termination_by run.budget
decreasing_by exact budget_next_lt ‹_›

end Run

end MeasuredBoot
