import MeasuredBoot.Proofs.Run.Finish

/-!
# Runs in step

Two runs are in step if they got equally far with the same records, and stand at related machines. If the
steps that are due give both machines the same actions, and each of these has the same outcome for both and
leaves related machines behind, the runs are in step up to the end, which both meet at once. Unlike
`Run.Mirrors` this goes through problems too: an outcome can be one, also one that aborts the boot.

* `Machine.Lockstep`: what is needed of the relation;
* `Action.Parallel`, `Step.Parallel`: what is needed of actions and steps;
* `Progress.InStep.perform`: the actions of a step;
* `Run.InStep.next`, `Run.InStep.finish`: a step, and the whole run.
-/

namespace MeasuredBoot

variable {R : Machine → Machine → Prop}

/-- A relation between machines with the same flow that is not about the flow, and that holds after the
machines were closed. -/
structure Machine.Lockstep (R : Machine → Machine → Prop) : Prop where
  flow_eq {m other : Machine} : R m other → m.flow = other.flow
  flow {m other : Machine} (flow : Flow) :
    R m other → R { m with flow := some flow } { other with flow := some flow }
  finish {m other : Machine} : R m other → R m.finish other.finish

/-- An action that has the same outcome for related machines, and leaves related machines behind. -/
def Action.Parallel (R : Machine → Machine → Prop) (action : Action) : Prop :=
  ∀ ⦃m other : Machine⦄ (actor : Actor), R m other →
    (action.apply m actor).2 = (action.apply other actor).2 ∧
      R (action.apply m actor).1 (action.apply other actor).1

/-- A step that gives related machines the same actions, or fails for them in the same way. -/
def Step.Parallel (R : Machine → Machine → Prop) (step : Step) : Prop :=
  ∀ ⦃m other : Machine⦄, R m other → step.actions m.artifacts = step.actions other.artifacts ∧
    ∀ actions, step.actions m.artifacts = .ok actions → ∀ action ∈ actions, action.Parallel R

/-! ## The actions of a step -/

namespace Progress

/-- What two runs got to in a step. -/
structure InStep (R : Machine → Machine → Prop) (p other : Progress) : Prop where
  machine : R p.machine other.machine
  performed_eq : p.performed = other.performed
  measured_eq : p.measured = other.measured
  issues_eq : p.issues = other.issues
  next_eq : p.next = other.next
  failure_eq : p.failure = other.failure

namespace InStep

variable {p other : Progress}

theorem note (h : p.InStep R other) (index : Nat) (outcome : Outcome) :
    (p.note index outcome).InStep R (other.note index outcome) := by
  obtain ⟨hmachine, hperformed, hmeasured, hissues, hnext, hfailure⟩ := h
  cases outcome with
  | done => exact ⟨hmachine, hperformed, hmeasured, hissues, hnext, hfailure⟩
  | measured record =>
    exact ⟨hmachine, hperformed, congrArg (· ++ _) hmeasured, hissues, hnext, hfailure⟩
  | skipped issue => exact ⟨hmachine, hperformed, hmeasured, congrArg (· ++ _) hissues, hnext, hfailure⟩
  | switched flow => exact ⟨hmachine, hperformed, hmeasured, hissues, rfl, hfailure⟩

theorem fail (h : p.InStep R other) (index : Option Nat) (reason : BootError) :
    (p.fail index reason).InStep R (other.fail index reason) :=
  ⟨h.machine, h.performed_eq, h.measured_eq, congrArg (· ++ _) h.issues_eq, h.next_eq, rfl⟩

theorem act {action : Action} (h : p.InStep R other) (haction : action.Parallel R) (actor : Nat → Actor)
    (index : Nat) : (p.act actor index action).InStep R (other.act actor index action) := by
  obtain ⟨hresult, hmachine⟩ := haction (actor index) h.machine
  cases happly : action.apply p.machine (actor index) with
  | mk after result =>
    cases happly' : action.apply other.machine (actor index) with
    | mk after' result' =>
      rw [happly, happly'] at hresult hmachine
      obtain rfl : result = result' := hresult
      have hperformed : { p with machine := after, performed := p.performed ++ [action] }.InStep R
          { other with machine := after', performed := other.performed ++ [action] } :=
        ⟨hmachine, congrArg (· ++ _) h.performed_eq, h.measured_eq, h.issues_eq, h.next_eq, h.failure_eq⟩
      cases result with
      | ok outcome =>
        rw [act_of_ok happly, act_of_ok happly']
        exact hperformed.note index outcome
      | error reason =>
        rw [act_of_error happly, act_of_error happly']
        exact hperformed.fail (some index) reason

theorem perform {actions : List Action} (h : p.InStep R other)
    (hactions : ∀ action ∈ actions, action.Parallel R) (actor : Nat → Actor) (index : Nat) :
    (p.perform actor index actions).InStep R (other.perform actor index actions) := by
  induction actions generalizing p other index with
  | nil => exact h
  | cons action rest ih =>
    obtain ⟨haction, hrest⟩ := List.forall_mem_cons.mp hactions
    have hstep := h.act haction actor index
    simp only [Progress.perform]
    rw [← hstep.failure_eq]
    cases (p.act actor index action).failure with
    | some reason => exact hstep
    | none => exact ih hstep hrest (index + 1)

end InStep

end Progress

/-! ## Runs -/

namespace Run

/-- Runs that got equally far, with the same records, and that stand at related machines. -/
structure InStep (R : Machine → Machine → Prop) (run other : Run) : Prop where
  machine : R run.machine other.machine
  log_eq : run.log = other.log
  flowIndex_eq : run.flowIndex = other.flowIndex
  stepIndex_eq : run.stepIndex = other.stepIndex
  status_eq : run.status = other.status

namespace InStep

variable {run other : Run} {flow : Flow} {step : Step}

/-- Runs that start at related machines. -/
theorem ofMachine {m other : Machine} (h : R m other) : (ofMachine m).InStep R (ofMachine other) :=
  ⟨h, rfl, rfl, rfl, rfl⟩

theorem take (h : run.InStep R other) (hstep : step.Parallel R) :
    (run.take step).InStep R (other.take step) := by
  have hactor : other.actor step = run.actor step := by
    funext i
    rw [actor, actor, h.flowIndex_eq, h.stepIndex_eq]
  have hstart : Progress.InStep R { machine := run.machine } { machine := other.machine } :=
    ⟨h.machine, rfl, rfl, rfl, rfl, rfl⟩
  obtain ⟨hsame, hactions⟩ := hstep h.machine
  rw [Run.take, Run.take, ← hsame, hactor]
  cases heq : step.actions run.machine.artifacts with
  | error reason => exact hstart.fail none reason
  | ok actions => exact hstart.perform (hactions actions heq) (run.actor step) 0

theorem record {p p' : Progress} (h : run.InStep R other) (hp : p.InStep R p') (flow : Flow) (step : Step) :
    (run.record flow step p).InStep R (other.record flow step p') := by
  refine ⟨hp.machine, ?_, h.flowIndex_eq, h.stepIndex_eq, h.status_eq⟩
  rw [Run.record, Run.record, h.log_eq, h.flowIndex_eq, h.stepIndex_eq, hp.performed_eq, hp.measured_eq,
    hp.issues_eq]

theorem close (hR : Machine.Lockstep R) (h : run.InStep R other) (status : RunStatus) :
    (run.close status).InStep R (other.close status) :=
  ⟨hR.finish h.machine, h.log_eq, h.flowIndex_eq, h.stepIndex_eq, rfl⟩

theorem proceed (hR : Machine.Lockstep R) (h : run.InStep R other) (next : Option Flow) :
    (run.proceed next).InStep R (other.proceed next) := by
  cases next with
  | none => exact ⟨h.machine, h.log_eq, h.flowIndex_eq, congrArg (· + 1) h.stepIndex_eq, rfl⟩
  | some flow => exact ⟨hR.flow flow h.machine, h.log_eq, congrArg (· + 1) h.flowIndex_eq, rfl, rfl⟩

theorem due (hR : Machine.Lockstep R) (h : run.InStep R other) (hdue : run.Due flow step) :
    other.Due flow step := by
  obtain ⟨hopen, hflow, hstep⟩ := hdue
  exact ⟨h.status_eq ▸ hopen, hR.flow_eq h.machine ▸ hflow, h.stepIndex_eq ▸ hstep⟩

theorem ends (hR : Machine.Lockstep R) (h : run.InStep R other) (hends : run.Ends) : other.Ends := by
  rw [Ends, ← h.status_eq, ← hR.flow_eq h.machine, ← h.stepIndex_eq]
  exact hends

/-- A step, if one is due. The runs go on together or not at all. -/
theorem next (hR : Machine.Lockstep R) (h : run.InStep R other)
    (hstep : ∀ flow step, run.Due flow step → step.Parallel R) :
    run.next.1.InStep R other.next.1 ∧ run.next.2 = other.next.2 := by
  obtain hterminal | hends | ⟨flow, step, hdue⟩ := run.due_cases
  · rw [next_of_isTerminal hterminal, next_of_isTerminal (h.status_eq ▸ hterminal)]
    exact ⟨h, rfl⟩
  · rw [next_of_ends hends, next_of_ends (h.ends hR hends)]
    exact ⟨h.close hR .finished, rfl⟩
  · have htake := h.take (hstep flow step hdue)
    have hrecord := h.record htake flow step
    have hdue' := h.due hR hdue
    cases hfailure : (run.take step).failure with
    | some reason =>
      have hfailure' := htake.failure_eq.symm.trans hfailure
      rw [next_of_failure hdue hfailure, next_of_failure hdue' hfailure']
      exact ⟨hrecord.close hR (.aborted reason), rfl⟩
    | none =>
      have hfailure' := htake.failure_eq.symm.trans hfailure
      rw [next_of_take hdue hfailure, next_of_take hdue' hfailure', ← htake.next_eq]
      exact ⟨hrecord.proceed hR (run.take step).next, rfl⟩

/-- The rest of a run. -/
theorem finish_of_reaches {start : Run} (hR : Machine.Lockstep R)
    (hsteps : ∀ point, start.Reaches point → ∀ flow step, point.Due flow step → step.Parallel R)
    (hreach : start.Reaches run) (h : run.InStep R other) : run.finish.InStep R other.finish := by
  induction run using Run.finish.induct generalizing other with
  | case1 run after hnext ih =>
    obtain ⟨hin, hgo⟩ := h.next hR (hsteps run hreach)
    have hreach' := hreach.next
    rw [hnext] at hin hgo hreach'
    rw [finish_of_next hnext, finish_of_next (Prod.ext rfl hgo.symm)]
    exact ih hreach' hin
  | case2 run after hnext =>
    obtain ⟨hin, hgo⟩ := h.next hR (hsteps run hreach)
    rw [hnext] at hin hgo
    rw [finish_of_last hnext, finish_of_last (Prod.ext rfl hgo.symm)]
    exact hin

/-- The whole run. -/
theorem finish (hR : Machine.Lockstep R) (h : run.InStep R other)
    (hsteps : ∀ point, run.Reaches point → ∀ flow step, point.Due flow step → step.Parallel R) :
    run.finish.InStep R other.finish :=
  h.finish_of_reaches hR hsteps .start

end InStep

end Run

end MeasuredBoot
