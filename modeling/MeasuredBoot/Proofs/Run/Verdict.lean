import MeasuredBoot.Flow.Catalogue
import MeasuredBoot.Proofs.Run.Log
import MeasuredBoot.Proofs.Run.Walk
import MeasuredBoot.Proofs.Tpm.Ready

/-!
# What a flow comes to

The problems that a flow meets can be told from the artifacts alone, when its actions measure into PCRs that
there are: a module that was started takes every measurement (`Machine.Ready`), so that only the data can be
missing. They decide whether the run is aborted, and by what.

* `Action.problem?`, `Step.issues`, `Step.allIssues`: the problems of an action, of a step, and of steps up to
  the first one that fails;
* `Machine.Ready`, `Machine.exists_ready`: a machine whose module takes every measurement, and that a start makes;
* `Machine.Ready.apply`, `Progress.perform_of_ready`: an action, and the actions of a step;
* `Run.ComesTo`: the problems of a run, and the status that follows from them;
* `Run.At.comesTo`, `Run.At.comesTo_started`: the steps that are left, and a flow that starts the module first;
* `Run.At.comesTo_switch`, `Run.At.comesTo_skip`, `Run.At.comesTo_panic`: steps before the module is started.
-/

namespace MeasuredBoot

/-! ## The problems of a flow -/

/-- The problem that an action meets when the module takes what it is sent, and whether it is fatal. -/
def Action.problem? (as : Artifacts) : Action → Option (Bool × BootError)
  | .extend _ source =>
    match source.fetch as with
    | .error e => some (true, e)
    | .ok (_, bytes) => if bytes.isEmpty then some (false, .emptyMeasurement source.text) else none
  | .event _ source _ =>
    match source.fetch as with
    | .error e => some (false, e)
    | .ok _ => none
  | .panic message => some (true, .panic message)
  | .initTpm _ | .switchTo _ => none

/-- The issues of actions up to the first one that fails, where the first of them has `index`. -/
def Action.issues (as : Artifacts) (index : Nat) : List Action → List StepIssue
  | [] => []
  | action :: rest =>
    match action.problem? as with
    | none => issues as (index + 1) rest
    | some (true, e) => [⟨some index, true, e⟩]
    | some (false, e) => ⟨some index, false, e⟩ :: issues as (index + 1) rest

/-- The issues of a step. -/
def Step.issues (as : Artifacts) (step : Step) : List StepIssue :=
  match step.actions as with
  | .error e => [⟨none, true, e⟩]
  | .ok actions => Action.issues as 0 actions

/-- The problem that aborts the run, if one of the issues does. -/
def StepIssue.failure? (issues : List StepIssue) : Option BootError := (issues.find? (·.fatal)).map (·.error)

/-- The issues of some steps up to the first one that fails. -/
def Step.allIssues (as : Artifacts) : List Step → List StepIssue
  | [] => []
  | step :: rest =>
    match StepIssue.failure? (step.issues as) with
    | some _ => step.issues as
    | none => step.issues as ++ allIssues as rest

/-- The status of a run that is over, by its issues. -/
def RunStatus.of (issues : List StepIssue) : RunStatus :=
  match StepIssue.failure? issues with
  | some reason => .aborted reason
  | none => .finished

theorem StepIssue.failure?_append {first : List StepIssue} (h : failure? first = none)
    (rest : List StepIssue) : failure? (first ++ rest) = failure? rest := by
  rw [failure?, Option.map_eq_none_iff] at h
  rw [failure?, List.find?_append, h, Option.none_or, failure?]

/-- The action measures into a PCR that there is, or gives up. -/
def Action.Regular : Action → Prop
  | .extend pcr _ => pcr.toNat < Tpm.pcrCount
  | .event _ _ _ | .panic _ => True
  | .initTpm _ | .switchTo _ => False

/-- All actions of the step are regular. -/
def Step.Regular (as : Artifacts) (step : Step) : Prop :=
  ∀ actions, step.actions as = .ok actions → ∀ action ∈ actions, action.Regular

variable {as : Artifacts} {m : Machine}

/-! ## Machines that take every measurement -/

namespace Machine

/-- A machine with given artifacts and a module that takes every measurement. -/
def Ready (as : Artifacts) (m : Machine) : Prop := m.artifacts = as ∧ ∃ tpm, m.tpm = some tpm ∧ tpm.Ready

/-- A measurement into a PCR that there is does not fail. -/
theorem Ready.measure {kind : EventKind} {pcr : UInt8} (h : m.Ready as)
    (hpcr : kind = .extend → pcr.toNat < Tpm.pcrCount) (bytes : ByteArray) (description : String)
    (record : MeasuredData) :
    ∃ after, m.measure kind pcr bytes description record = (after, .ok (.measured record)) ∧
      after.Ready as := by
  obtain ⟨has, tpm, htpm, hready⟩ := h
  obtain ⟨after, happly⟩ := hready.exists_applyAll record bytes description hpcr fun _ => id
  have hafter := hready.of_applyAll happly
  have hcommands := record.commands_eq kind pcr bytes description hready.balanced.isHash
  refine ⟨_, measure_of_applyAll htpm hcommands hready.finished_eq happly, has, _, rfl, ?_⟩
  exact ⟨hafter.balanced.relog _ _, hafter.started, hafter.finished_eq⟩

/-- A start of a new module does not fail. -/
theorem exists_ready {algs : List Algorithm} {built : Tpm} (hnew : built.IsNew algs) (hm : m.tpm = some built)
    (locality : UInt8) (actor : Actor) :
    ∃ after, (Action.initTpm locality).apply m actor = (after, .ok .done) ∧ after.Ready m.artifacts := by
  have hbooked := hnew.booked m.artifacts
  obtain ⟨-, rfl⟩ := Tpm.of_withAlgorithms hnew.withAlgorithms
  obtain ⟨after, hinit, hready⟩ := Tpm.exists_ready hbooked.balanced rfl rfl locality actor.coords
  rw [Action.apply, withTpm_of_ok hm hinit]
  exact ⟨_, rfl, rfl, after, rfl, hready⟩

end Machine

/-! ## From action to action -/

/-- A regular action does what its data lets it do. -/
theorem Machine.Ready.apply {action : Action} (h : m.Ready as) (hregular : action.Regular) (actor : Actor) :
    ∃ after, after.Ready as ∧
      match action.problem? as with
      | none => ∃ record, action.apply m actor = (after, .ok (.measured record))
      | some (true, e) => action.apply m actor = (after, .error e)
      | some (false, e) => action.apply m actor = (after, .ok (.skipped e)) := by
  have has := h.1
  cases action with
  | initTpm | switchTo => exact hregular.elim
  | panic message => exact ⟨m, h, rfl⟩
  | extend pcr source =>
    rw [Action.problem?, Action.apply, has]
    cases source.fetch as with
    | error e => exact ⟨m, h, rfl⟩
    | ok fetched =>
      obtain ⟨data, bytes⟩ := fetched
      dsimp only
      by_cases hempty : bytes.isEmpty = true
      · rw [if_pos hempty, if_pos hempty]
        exact ⟨m, h, rfl⟩
      · rw [if_neg hempty, if_neg hempty]
        obtain ⟨after, hmeasure, hafter⟩ := h.measure (fun _ => hregular) bytes source.text
          { data, source := some source, actor }
        exact ⟨after, hafter, _, hmeasure⟩
  | event pcr source description =>
    rw [Action.problem?, Action.apply, has]
    cases source.fetch as with
    | error e => exact ⟨m, h, rfl⟩
    | ok fetched =>
      obtain ⟨data, bytes⟩ := fetched
      have hpcr : EventKind.informational = .extend → pcr.toNat < Tpm.pcrCount :=
        fun h => absurd h (by decide)
      obtain ⟨after, hmeasure, hafter⟩ :=
        h.measure hpcr bytes description { data, source := some source, actor }
      exact ⟨after, hafter, _, hmeasure⟩

/-- The actions of a step meet the problems that their data has. -/
theorem Progress.perform_of_ready {p : Progress} {actor : Nat → Actor} {index : Nat} {actions : List Action}
    (h : p.machine.Ready as) (hopen : p.failure = none) (hregular : ∀ action ∈ actions, action.Regular) :
    (p.perform actor index actions).machine.Ready as ∧ (p.perform actor index actions).next = p.next ∧
      (p.perform actor index actions).issues = p.issues ++ Action.issues as index actions ∧
      (p.perform actor index actions).failure = StepIssue.failure? (Action.issues as index actions) := by
  induction actions generalizing p index with
  | nil => exact ⟨h, rfl, (List.append_nil _).symm, hopen⟩
  | cons action rest ih =>
    obtain ⟨haction, hrest⟩ := List.forall_mem_cons.mp hregular
    obtain ⟨after, hafter, happly⟩ := h.apply haction (actor index)
    rw [Action.issues]
    cases hproblem : action.problem? as with
    | none =>
      rw [hproblem] at happly
      obtain ⟨record, happly⟩ := happly
      rw [perform_cons_of_ok happly hopen]
      exact ih hafter hopen hrest
    | some problem =>
      obtain ⟨fatal, e⟩ := problem
      rw [hproblem] at happly
      cases fatal with
      | true =>
        rw [perform_cons_of_error happly]
        exact ⟨hafter, rfl, rfl, rfl⟩
      | false =>
        let skipped : Progress :=
          { p with machine := after, performed := p.performed ++ [action] }.note index (.skipped e)
        have hskipped : skipped.failure = none := hopen
        obtain ⟨hready, hnext, hissues, hfailure⟩ := ih hafter hskipped hrest
        rw [perform_cons_of_ok happly hopen]
        refine ⟨hready, hnext, hissues.trans ?_, hfailure⟩
        exact List.append_assoc p.issues [⟨some index, false, e⟩] _

namespace Run

variable {run next : Run} {step : Step}

theorem take_of_ready (h : run.machine.Ready as) (hregular : step.Regular as) :
    (run.take step).machine.Ready as ∧ (run.take step).next = none ∧
      (run.take step).issues = step.issues as ∧
      (run.take step).failure = StepIssue.failure? (step.issues as) := by
  rw [take, Step.issues, h.1]
  cases hactions : step.actions as with
  | error e => exact ⟨h, rfl, rfl, rfl⟩
  | ok actions =>
    exact Progress.perform_of_ready (p := { machine := run.machine }) h rfl (hregular actions hactions)

/-! ## From step to step -/

/-- The issues that are still to come, and the status at the end. -/
structure ComesTo (run : Run) (issues : List StepIssue) : Prop where
  issues_eq : run.finish.issues = run.issues ++ issues
  status_eq : run.finish.status = .of issues

/-- A step that does not fail comes first. -/
theorem ComesTo.of_next {first rest : List StepIssue} (h : next.ComesTo rest)
    (hfinish : run.finish = next.finish) (hissues : next.issues = run.issues ++ first)
    (hopen : StepIssue.failure? first = none) : run.ComesTo (first ++ rest) := by
  constructor
  · rw [hfinish, h.issues_eq, hissues, List.append_assoc]
  · rw [hfinish, h.status_eq, RunStatus.of, RunStatus.of, StepIssue.failure?_append hopen]

namespace At

variable {flow : Flow} {index : Nat}

theorem comesTo_end (h : run.At m flow index) (hend : flow.steps[index]? = none) : run.ComesTo [] := by
  have hfinish := finish_of_last (next_of_ends (h.ends hend))
  constructor
  · rw [hfinish, List.append_nil]
    rfl
  · rw [hfinish]
    rfl

/-- The steps that are left meet the problems that their data has. The induction is on these steps. -/
theorem comesTo {steps : List Step} (h : run.At m flow index) (hsteps : flow.steps.drop index = steps)
    (hready : m.Ready as) (hregular : ∀ step ∈ steps, step.Regular as) :
    run.ComesTo (Step.allIssues as steps) := by
  induction steps generalizing run m index with
  | nil => exact h.comesTo_end (List.getElem?_eq_none (List.drop_eq_nil_iff.mp hsteps))
  | cons step rest ih =>
    have hstep : flow.steps[index]? = some step := by
      rw [← Nat.add_zero index, ← List.getElem?_drop, hsteps]
      rfl
    have hrest : flow.steps.drop (index + 1) = rest := by
      rw [← List.drop_drop, hsteps]
      rfl
    obtain ⟨hfirst, hothers⟩ := List.forall_mem_cons.mp hregular
    obtain ⟨hafter, hnone, hissues, hfailure⟩ := take_of_ready (h.machine_eq ▸ hready) hfirst
    rw [Step.allIssues]
    cases hverdict : StepIssue.failure? (step.issues as) with
    | some reason =>
      obtain ⟨hstatus, hlog⟩ := h.stop hstep (hfailure.trans hverdict)
      refine ⟨hlog.trans (congrArg _ hissues), ?_⟩
      rw [hstatus, RunStatus.of]
      dsimp only
      rw [hverdict]
    | none =>
      obtain ⟨next, hnext, hmoves, hlog⟩ := h.advance hstep (hfailure.trans hverdict)
      rw [hnone] at hmoves
      exact (ih hmoves hrest hafter hothers).of_next hnext (hlog.trans (congrArg _ hissues)) hverdict

variable {issues : List StepIssue}

/-- A step with one action that neither fails nor is skipped. -/
theorem comesTo_of_single {action : Action} {outcome : Outcome} {after : Machine} (h : run.At m flow index)
    (hstep : flow.steps[index]? = some step) (hactions : step.actions m.artifacts = .ok [action])
    (happly : action.apply m (run.actor step 0) = (after, .ok outcome))
    (hdone : ∀ e, outcome ≠ .skipped e)
    (hrest : ∀ next : Run, next.Moves after flow index outcome.flow? → next.ComesTo issues) :
    run.ComesTo issues := by
  have htake := (h.take_of_single hactions).trans (Progress.act_of_ok happly)
  have hok : (run.take step).failure = none := by rw [htake, Progress.failure_note]
  have hissues : (run.take step).issues = [] := by
    rw [htake]
    cases outcome with
    | skipped e => exact absurd rfl (hdone e)
    | done | measured | switched => rfl
  obtain ⟨next, hnext, hmoves, hlog⟩ := h.advance hstep hok
  rw [htake, Progress.machine_note, Progress.next_note, Option.or_none] at hmoves
  exact (hrest next hmoves).of_next hnext (hlog.trans (congrArg _ hissues)) rfl

/-- A step without actions. -/
theorem comesTo_of_nothing (h : run.At m flow index) (hstep : flow.steps[index]? = some step)
    (hactions : step.actions m.artifacts = .ok [])
    (hrest : ∀ next : Run, next.At m flow (index + 1) → next.ComesTo issues) : run.ComesTo issues := by
  have htake := h.take_of_nothing hactions
  have hok : (run.take step).failure = none := by rw [htake]
  obtain ⟨next, hnext, hmoves, hlog⟩ := h.advance hstep hok
  rw [htake] at hmoves hlog
  exact (hrest next hmoves).of_next hnext hlog rfl

/-- A flow that starts a new module and then does regular actions. -/
theorem comesTo_started {algs : List Algorithm} {built : Tpm} {name : String} {locality : UInt8}
    {steps : List Step} (h : run.At m (.mk name (.initTpm locality :: steps)) 0) (hnew : built.IsNew algs)
    (hm : m.tpm = some built) (hregular : ∀ step ∈ steps, step.Regular m.artifacts) :
    run.ComesTo (Step.allIssues m.artifacts steps) := by
  obtain ⟨after, happly, hready⟩ :=
    Machine.exists_ready hnew hm locality (run.actor (.initTpm locality) 0)
  exact h.comesTo_of_single rfl rfl happly nofun fun next hmoves => hmoves.comesTo rfl hready hregular

/-- A step that switches to another flow if a condition holds. -/
theorem comesTo_switch {other : Flow} {condition : Condition} (h : run.At m flow index)
    (hstep : flow.steps[index]? = some (.guarded condition (.switchTo other)))
    (hholds : condition.holds m.artifacts = true)
    (hrest : ∀ next : Run, next.At { m with flow := some other } other 0 → next.ComesTo issues) :
    run.ComesTo issues :=
  h.comesTo_of_single hstep (Step.actions_of_holds hholds) rfl nofun hrest

/-- A step whose condition does not hold. -/
theorem comesTo_skip {condition : Condition} (h : run.At m flow index)
    (hstep : flow.steps[index]? = some (.guarded condition step))
    (hholds : condition.holds m.artifacts = false)
    (hrest : ∀ next : Run, next.At m flow (index + 1) → next.ComesTo issues) : run.ComesTo issues :=
  h.comesTo_of_nothing hstep (Step.actions_of_not_holds hholds) hrest

/-- A step that gives up. -/
theorem comesTo_panic {message : String} (h : run.At m flow index)
    (hstep : flow.steps[index]? = some (.panic message)) :
    run.ComesTo [⟨some 0, true, .panic message⟩] := by
  have hactions : Step.actions m.artifacts (.panic message) = .ok [.panic message] := rfl
  have htake := (h.take_of_single hactions).trans (Progress.act_of_error rfl)
  have hfailure : (run.take (.panic message)).failure = some (.panic message) := by
    rw [htake]
    rfl
  obtain ⟨hstatus, hlog⟩ := h.stop hstep hfailure
  exact ⟨hlog.trans (congrArg (run.issues ++ ·.issues) htake), hstatus⟩

end At

end Run

end MeasuredBoot
