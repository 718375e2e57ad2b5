import MeasuredBoot.Proofs.Run.Steps

/-!
# The end of a run

A run is over, or ends because its flow has no step left (`Run.Ends`), or has a step that is due
(`Run.Due`). What `Run.next` does in each case, and what `Run.finish` makes of it:

* `Progress.perform_cons_of_ok`, `Progress.perform_cons_of_error`: the first of some actions of a step;
* `Run.due_cases`: there are no other cases;
* `Run.next_of_take`, `Run.next_of_failure`: a step that is due;
* `Run.finish_of_next`, `Run.finish_of_last`, `Run.finish_eq_stepped`: the run after its last step;
* `Run.finish_induction`, `Run.Reaches.finish`: the end is a point of the run.
-/

namespace MeasuredBoot

/-- The flow that an action switched to. -/
def Outcome.flow? : Outcome → Option Flow
  | .switched flow => some flow
  | .done | .measured _ | .skipped _ => none

namespace Progress

theorem next_note (p : Progress) (index : Nat) (outcome : Outcome) :
    (p.note index outcome).next = outcome.flow?.or p.next := by
  cases outcome <;> rfl

theorem failure_note (p : Progress) (index : Nat) (outcome : Outcome) :
    (p.note index outcome).failure = p.failure := by
  cases outcome <;> rfl

theorem performed_note (p : Progress) (index : Nat) (outcome : Outcome) :
    (p.note index outcome).performed = p.performed := by
  cases outcome <;> rfl

variable {p : Progress} {actor : Nat → Actor} {index : Nat} {action : Action} {after : Machine}

theorem act_of_ok {outcome : Outcome} (h : action.apply p.machine (actor index) = (after, .ok outcome)) :
    p.act actor index action =
      { p with machine := after, performed := p.performed ++ [action] }.note index outcome := by
  rw [act, h]

theorem act_of_error {reason : BootError}
    (h : action.apply p.machine (actor index) = (after, .error reason)) :
    p.act actor index action =
      { p with machine := after, performed := p.performed ++ [action] }.fail (some index) reason := by
  rw [act, h]

theorem perform_cons_of_ok {outcome : Outcome}
    (h : action.apply p.machine (actor index) = (after, .ok outcome)) (hopen : p.failure = none)
    (rest : List Action) : p.perform actor index (action :: rest) =
      ({ p with machine := after, performed := p.performed ++ [action] }.note index outcome).perform actor
        (index + 1) rest := by
  simp only [perform, act_of_ok h, failure_note, hopen]

theorem perform_cons_of_error {reason : BootError}
    (h : action.apply p.machine (actor index) = (after, .error reason)) (rest : List Action) :
    p.perform actor index (action :: rest) =
      { p with machine := after, performed := p.performed ++ [action] }.fail (some index) reason := by
  simp only [perform, act_of_error h, fail]

end Progress

namespace Run

/-- The step that is due: the run is not over, and its flow has the step. -/
def Due (run : Run) (flow : Flow) (step : Step) : Prop :=
  run.status.isTerminal = false ∧ run.machine.flow = some flow ∧ flow.steps[run.stepIndex]? = some step

/-- The run is not over, but its flow has no step left. -/
def Ends (run : Run) : Prop :=
  run.status.isTerminal = false ∧
    ∀ flow, run.machine.flow = some flow → flow.steps[run.stepIndex]? = none

/-- A run is over, ends, or has a step that is due. -/
theorem due_cases (run : Run) :
    run.status.isTerminal = true ∨ run.Ends ∨ ∃ flow step, run.Due flow step := by
  cases hopen : run.status.isTerminal with
  | true => exact .inl rfl
  | false =>
    refine .inr ?_
    cases hflow : run.machine.flow with
    | none => exact .inl ⟨hopen, fun flow h => nomatch hflow.symm.trans h⟩
    | some flow =>
      cases hstep : flow.steps[run.stepIndex]? with
      | none => exact .inl ⟨hopen, fun _ h => Option.some.inj (hflow.symm.trans h) ▸ hstep⟩
      | some step => exact .inr ⟨flow, step, hopen, hflow, hstep⟩

theorem next_of_isTerminal {run : Run} (h : run.status.isTerminal = true) : run.next = (run, false) := by
  simp only [next, h, if_true]

theorem next_of_ends {run : Run} (h : run.Ends) : run.next = (run.close .finished, false) := by
  obtain ⟨hopen, hends⟩ := h
  simp only [next, hopen, Bool.false_eq_true, if_false]
  cases hflow : run.machine.flow with
  | none => rfl
  | some flow => simp only [hends flow hflow]

theorem next_of_failure {run : Run} {flow : Flow} {step : Step} {reason : BootError}
    (hdue : run.Due flow step) (hfailure : (run.take step).failure = some reason) :
    run.next = ((run.record flow step (run.take step)).close (.aborted reason), false) := by
  obtain ⟨hopen, hflow, hstep⟩ := hdue
  simp only [next, hopen, Bool.false_eq_true, if_false, hflow, hstep, hfailure]

theorem next_of_take {run : Run} {flow : Flow} {step : Step} (hdue : run.Due flow step)
    (hok : (run.take step).failure = none) :
    run.next = ((run.record flow step (run.take step)).proceed (run.take step).next, true) := by
  obtain ⟨hopen, hflow, hstep⟩ := hdue
  simp only [next, hopen, Bool.false_eq_true, if_false, hflow, hstep, hok]

/-- A run that goes on is running. -/
theorem status_of_next {run after : Run} (h : run.next = (after, true)) : after.status = .running := by
  obtain hterminal | hends | ⟨flow, step, hdue⟩ := run.due_cases
  · rw [next_of_isTerminal hterminal] at h
    cases h
  · rw [next_of_ends hends] at h
    cases h
  · cases hfailure : (run.take step).failure with
    | some reason =>
      rw [next_of_failure hdue hfailure] at h
      cases h
    | none =>
      rw [next_of_take hdue hfailure] at h
      cases h
      cases (run.take step).next <;> rfl

theorem finish_of_next {run after : Run} (h : run.next = (after, true)) : run.finish = after.finish := by
  rw [finish]
  split
  · rename_i heq
    rw [h] at heq
    cases heq
    rfl
  · rename_i heq
    rw [h] at heq
    cases heq

theorem finish_of_last {run after : Run} (h : run.next = (after, false)) : run.finish = after := by
  rw [finish]
  split
  · rename_i heq
    rw [h] at heq
    cases heq
  · rename_i heq
    rw [h] at heq
    cases heq
    rfl

/-- A run that does not go on is over. -/
theorem isTerminal_of_last {run after : Run} (h : run.next = (after, false)) :
    after.status.isTerminal = true := by
  obtain hterminal | hends | ⟨flow, step, hdue⟩ := run.due_cases
  · rw [next_of_isTerminal hterminal] at h
    cases h
    exact hterminal
  · rw [next_of_ends hends] at h
    cases h
    rfl
  · cases hfailure : (run.take step).failure with
    | some reason =>
      rw [next_of_failure hdue hfailure] at h
      cases h
      rfl
    | none =>
      rw [next_of_take hdue hfailure] at h
      cases h

/-- The run after a number of steps. -/
def stepped (run : Run) : Nat → Run
  | 0 => run
  | n + 1 => run.next.1.stepped n

/-- A run that is over does not change. -/
theorem finish_of_isTerminal {run : Run} (h : run.status.isTerminal = true) : run.finish = run :=
  finish_of_last (next_of_isTerminal h)

/-- A run that is over after some steps. -/
theorem finish_eq_stepped {run : Run} {n : Nat} (h : (run.stepped n).status.isTerminal = true) :
    run.finish = run.stepped n := by
  induction n generalizing run with
  | zero => exact finish_of_isTerminal h
  | succ n ih =>
    have hfinish := ih h
    cases hnext : run.next with
    | mk after goes =>
      rw [stepped]
      rw [hnext] at hfinish ⊢
      cases goes with
      | true => exact (finish_of_next hnext).trans hfinish
      | false =>
        rw [finish_of_last hnext, ← hfinish, finish_of_isTerminal (isTerminal_of_last hnext)]

/-- What every step preserves holds at the end. -/
theorem finish_induction {P : Run → Prop} (hstep : ∀ run : Run, P run → P run.next.1) {run : Run}
    (h : P run) : P run.finish := by
  induction run using Run.finish.induct with
  | case1 run after hnext ih =>
    have := hstep run h
    rw [hnext] at this
    rw [finish_of_next hnext]
    exact ih this
  | case2 run after hnext =>
    have := hstep run h
    rw [hnext] at this
    rw [finish_of_last hnext]
    exact this

/-- The end is a point of the run. -/
theorem Reaches.finish {start run : Run} (h : start.Reaches run) : start.Reaches run.finish :=
  finish_induction (fun _ => Reaches.next) h

end Run

end MeasuredBoot
