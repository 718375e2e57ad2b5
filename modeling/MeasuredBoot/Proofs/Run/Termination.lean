import MeasuredBoot.Proofs.Run.Finish

/-!
# How many steps a run takes

A run goes on step by step until one of them is the last one, and leaves at most as many records as its flow
has steps together with all flows that it can switch to (`Machine.stepCount`). A switch starts another flow
from its first step, so that neither the number of the step nor the length of the flow bounds what is left;
`Run.budget` does, which every step lowers.

* `Run.Due.budget_pos`, `Run.budget_le_stepCount`: the bound for the steps that are left;
* `Run.exists_last`, `Run.exists_log_finish`: the last step, and the records up to it;
* `Run.finish_bounded`: a run ends, within the bound.
-/

namespace MeasuredBoot

/-- The number of steps of the flow of a machine and, recursively, of the flows that it can switch to. -/
def Machine.stepCount (m : Machine) : Nat :=
  match m.flow with
  | some flow => flow.stepCount
  | none => 0

theorem stepsCount_drop_le (steps : List Step) (i : Nat) : stepsCount (steps.drop i) ≤ stepsCount steps := by
  induction steps generalizing i with
  | nil => exact Nat.le_of_eq (congrArg stepsCount List.drop_nil)
  | cons step rest ih =>
    cases i with
    | zero => exact Nat.le_refl _
    | succ i =>
      have := ih i
      rw [List.drop_succ_cons, stepsCount]
      omega

namespace Run

variable {run after : Run} {flow : Flow} {step : Step}

theorem Due.budget_pos (h : run.Due flow step) : 0 < run.budget := by
  obtain ⟨-, hflow, hstep⟩ := h
  have hbudget : run.budget = stepsCount (flow.steps.drop run.stepIndex) := by rw [budget, hflow]
  rw [hbudget, stepsCount_drop hstep]
  omega

theorem budget_le_stepCount (run : Run) : run.budget ≤ run.machine.stepCount := by
  rw [budget, Machine.stepCount]
  cases run.machine.flow with
  | none => exact Nat.le_refl 0
  | some flow =>
    cases flow with
    | mk name steps =>
      show stepsCount (steps.drop run.stepIndex) ≤ (Flow.mk name steps).stepCount
      rw [Flow.stepCount]
      exact stepsCount_drop_le steps run.stepIndex

/-! ## The records of a step -/

/-- A step after which the run goes on leaves one record. -/
theorem log_of_goes (h : run.next = (after, true)) : ∃ record, after.log = run.log ++ [record] := by
  obtain hterminal | hends | ⟨flow, step, hdue⟩ := run.due_cases
  · rw [next_of_isTerminal hterminal] at h
    cases h
  · rw [next_of_ends hends] at h
    cases h
  · cases hfailure : (run.take step).failure with
    | some reason =>
      rw [next_of_failure hdue hfailure] at h
      cases h
    | none =>
      rw [next_of_take hdue hfailure] at h
      cases h
      cases (run.take step).next <;> exact ⟨_, rfl⟩

/-- The last step leaves one record if it aborts the run, and none otherwise. -/
theorem log_of_last (h : run.next = (after, false)) :
    ∃ records : RunLog, after.log = run.log ++ records ∧ records.length ≤ run.budget := by
  obtain hterminal | hends | ⟨flow, step, hdue⟩ := run.due_cases
  · rw [next_of_isTerminal hterminal] at h
    cases h
    exact ⟨[], (List.append_nil _).symm, Nat.zero_le _⟩
  · rw [next_of_ends hends] at h
    cases h
    exact ⟨[], (List.append_nil _).symm, Nat.zero_le _⟩
  · cases hfailure : (run.take step).failure with
    | some reason =>
      rw [next_of_failure hdue hfailure] at h
      cases h
      exact ⟨_, rfl, hdue.budget_pos⟩
    | none =>
      rw [next_of_take hdue hfailure] at h
      cases h

/-! ## The end -/

/-- The steps that go on come before one that does not, which ends the run. -/
theorem exists_last (run : Run) : ∃ n, (∀ k < n, (run.stepped k).next.2 = true) ∧
    (run.stepped n).next = (run.finish, false) := by
  induction run using Run.finish.induct with
  | case1 run after hnext ih =>
    obtain ⟨n, hgoes, hlast⟩ := ih
    have hstepped (k : Nat) : run.stepped (k + 1) = after.stepped k := by rw [stepped, hnext]
    refine ⟨n + 1, fun k hk => ?_, ?_⟩
    · cases k with
      | zero => rw [stepped, hnext]
      | succ k =>
        rw [hstepped]
        exact hgoes k (by omega)
    · rw [hstepped, hlast, finish_of_next hnext]
  | case2 run after hnext =>
    refine ⟨0, fun k hk => absurd hk (Nat.not_lt_zero k), ?_⟩
    rw [stepped, hnext, finish_of_last hnext]

/-- As many steps as go on, so many records. -/
theorem length_log_stepped {n : Nat} (h : ∀ k < n, (run.stepped k).next.2 = true) :
    (run.stepped n).log.length = run.log.length + n := by
  induction n generalizing run with
  | zero => rfl
  | succ n ih =>
    have hnext : run.next = (run.next.1, true) := Prod.ext rfl (h 0 (Nat.succ_pos n))
    obtain ⟨record, hlog⟩ := log_of_goes hnext
    have hrest : (run.next.1.stepped n).log.length = run.next.1.log.length + n :=
      ih fun k hk => h (k + 1) (Nat.succ_lt_succ hk)
    rw [stepped, hrest, hlog, List.length_append, List.length_singleton]
    omega

/-- The records that are still to come. Each step that goes on lowers the budget and takes one record of it. -/
theorem exists_log_finish (run : Run) :
    ∃ records : RunLog, run.finish.log = run.log ++ records ∧ records.length ≤ run.budget := by
  induction run using Run.finish.induct with
  | case1 run after hnext ih =>
    obtain ⟨records, hlog, hlength⟩ := ih
    obtain ⟨record, hrecord⟩ := log_of_goes hnext
    have hlt := budget_next_lt hnext
    refine ⟨record :: records, ?_, ?_⟩
    · rw [finish_of_next hnext, hlog, hrecord, List.append_assoc, List.singleton_append]
    · rw [List.length_cons]
      omega
  | case2 run after hnext =>
    rw [finish_of_last hnext]
    exact log_of_last hnext

/-- Every run ends, wherever it stands and whatever its flow is. After some steps that go on, each of which
leaves a record, comes the last step, and the run is over. The records are at most as many as the steps of
the flow and of the flows that it can switch to. -/
theorem finish_bounded (run : Run) : ∃ (n : Nat) (records : RunLog),
    (∀ k < n, (run.stepped k).next.2 = true) ∧ (run.stepped n).next = (run.finish, false) ∧
    run.finish.status.isTerminal = true ∧ run.finish.log = run.log ++ records ∧
    n ≤ records.length ∧ records.length ≤ run.machine.stepCount := by
  obtain ⟨n, hgoes, hlast⟩ := run.exists_last
  obtain ⟨records, hlog, hlength⟩ := run.exists_log_finish
  obtain ⟨others, hothers, -⟩ := log_of_last hlast
  have hn := congrArg List.length (hothers.symm.trans hlog)
  rw [List.length_append, length_log_stepped hgoes, List.length_append] at hn
  exact ⟨n, records, hgoes, hlast, isTerminal_of_last hlast, hlog, by omega,
    Nat.le_trans hlength run.budget_le_stepCount⟩

end Run

end MeasuredBoot
