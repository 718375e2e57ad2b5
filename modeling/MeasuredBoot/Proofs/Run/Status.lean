import MeasuredBoot.Proofs.Run.Finish

/-!
# Status, fatal issues and the end of a run

What the status of a run says agrees with the records of its steps and with the module of its machine, at
every point of the run (`Run.Consistent`): only a run that was aborted has a fatal issue, which is the last
thing in its log (`Run.AbortedBy`), and the module is closed as soon as the run is over.

* `Progress.perform_cases`, `Run.take_cases`: the actions of a step are carried out, or one of them fails and
  is the last one;
* `Run.Consistent.next`: what one step preserves;
* `Run.status_consistent`: every point of a run, and all that can be asked of a run that is over.
-/

namespace MeasuredBoot

/-- The issues of a log that aborted the run. -/
def RunLog.fatalIssues (log : RunLog) : List StepIssue := (log.flatMap (·.issues)).filter (·.fatal)

/-- How a step comes to a stop: its actions cannot be told, or the last one that was carried out fails. -/
def Step.StopsAt (step : Step) (as : Artifacts) (performed : List Action) (issue : StepIssue) : Prop :=
  match issue.actionIndex with
  | none => step.actions as = .error issue.error ∧ performed = []
  | some i => ∃ actions, step.actions as = .ok actions ∧ i < actions.length ∧ performed = actions.take (i + 1)

/-! ## The actions of a step -/

namespace Progress

/-- Nothing failed so far. -/
structure Clean (p : Progress) : Prop where
  failure_eq : p.failure = none
  issues : ∀ issue ∈ p.issues, issue.fatal = false

theorem Clean.note {p : Progress} (h : p.Clean) (index : Nat) (outcome : Outcome) :
    (p.note index outcome).Clean := by
  refine ⟨(p.failure_note index outcome).trans h.failure_eq, ?_⟩
  cases outcome with
  | done | measured | switched => exact h.issues
  | skipped issue =>
    exact List.forall_mem_append.mpr ⟨h.issues, List.forall_mem_singleton.mpr rfl⟩

/-- All actions are carried out and none fails, or they are carried out up to the first one that fails. The
induction is on the actions that are left. -/
theorem perform_cases {p : Progress} (h : p.Clean) (actor : Nat → Actor) (index : Nat)
    (actions : List Action) :
    (p.perform actor index actions).Clean ∨
    ∃ k reason before, k < actions.length ∧ (∀ issue ∈ before, issue.fatal = false) ∧
      (p.perform actor index actions).failure = some reason ∧
      (p.perform actor index actions).issues = before ++ [⟨some (index + k), true, reason⟩] ∧
      (p.perform actor index actions).performed = p.performed ++ actions.take (k + 1) := by
  induction actions generalizing p index with
  | nil => exact .inl h
  | cons action rest ih =>
    cases happly : action.apply p.machine (actor index) with
    | mk after result =>
      cases result with
      | error reason =>
        refine .inr ⟨0, reason, p.issues, Nat.succ_pos _, h.issues, ?_⟩
        rw [perform_cons_of_error happly]
        exact ⟨rfl, rfl, rfl⟩
      | ok outcome =>
        let next : Progress := { p with machine := after, performed := p.performed ++ [action] }
        have hnext : next.Clean := ⟨h.failure_eq, h.issues⟩
        have hclean : (next.note index outcome).Clean := hnext.note index outcome
        rw [perform_cons_of_ok happly h.failure_eq]
        obtain hall | ⟨k, reason, before, hk, hbefore, hfailure, hissues, hperformed⟩ :=
          ih hclean (index + 1)
        · exact .inl hall
        · refine .inr ⟨k + 1, reason, before, Nat.succ_lt_succ hk, hbefore, hfailure, ?_, ?_⟩
          · rw [hissues, Nat.add_assoc, Nat.add_comm 1 k]
          · rw [hperformed, performed_note, List.take_succ_cons, List.append_assoc, List.singleton_append]

end Progress

namespace Run

variable {run : Run} {flow : Flow} {step : Step}

/-- No action of a step fails, or the step comes to a stop with its last issue. -/
theorem take_cases (run : Run) (step : Step) : (run.take step).Clean ∨
    ∃ before issue, (run.take step).failure = some issue.error ∧
      (run.take step).issues = before ++ [issue] ∧ issue.fatal = true ∧
      (∀ other ∈ before, other.fatal = false) ∧
      step.StopsAt run.machine.artifacts (run.take step).performed issue := by
  rw [take]
  cases hactions : step.actions run.machine.artifacts with
  | error reason => exact .inr ⟨[], ⟨none, true, reason⟩, rfl, rfl, rfl, List.forall_mem_nil _, hactions, rfl⟩
  | ok actions =>
    have hstart : Progress.Clean { machine := run.machine } := ⟨rfl, List.forall_mem_nil _⟩
    obtain hclean | ⟨k, reason, before, hk, hbefore, hfailure, hissues, hperformed⟩ :=
      Progress.perform_cases hstart (run.actor step) 0 actions
    · exact .inl hclean
    · rw [Nat.zero_add] at hissues
      exact .inr ⟨before, ⟨some k, true, reason⟩, hfailure, hissues, rfl, hbefore, actions, hactions, hk,
        hperformed⟩

end Run

/-! ## What no action changes -/

theorem Tpm.finished_initLazy (tpm : Tpm) (locality : UInt8) (cause : Coordinates) :
    (tpm.initLazy locality cause).1.finished = tpm.finished := by
  obtain hsame | ⟨started, hstart, htaken⟩ := tpm.initLazy_started locality cause
  · rw [hsame]
  · obtain ⟨-, _, -, rfl⟩ := start_eq_ok_iff.mp hstart
    rw [htaken]

namespace Machine

/-- Whether the module is closed, if there is one. -/
def closed? (m : Machine) : Option Bool := m.tpm.map (·.finished)

/-- The end of a run closes the module that there is. -/
theorem closed?_finish {m : Machine} {tpm : Option Tpm} {closed : Bool}
    (h : m.closed? = tpm.map fun _ => closed) : m.finish.closed? = tpm.map fun _ => true := by
  have hsame := congrArg (Option.map fun _ => true) h
  rw [closed?, Option.map_map, Option.map_map] at hsame
  rw [closed?, finish, Option.map_map]
  exact hsame

theorem steady_closed? (closed : Option Bool) : Steady fun m => m.closed? = closed := by
  rintro m after actor heffect rfl
  cases heffect with
  | none => rfl
  | started htpm locality =>
    rw [closed?, closed?, htpm]
    exact congrArg some (Tpm.finished_initLazy ..)
  | measured htpm hactor hbytes hcommands hopen happly =>
    rw [closed?, closed?, htpm]
    exact congrArg some (Tpm.follows_of_applyAll happly).finished_eq

theorem steady_artifacts (as : Artifacts) : Steady fun m => m.artifacts = as := by
  rintro m after actor heffect rfl
  cases heffect <;> rfl

end Machine

namespace Run

/-! ## From step to step -/

/-- A step aborted the run: the last record is about the step, which stands in the flow at the number of the
record, and its last issue is the only fatal one in the log. -/
structure AbortedBy (run : Run) (record : StepRecord) (issue : StepIssue) (flow : Flow) (step : Step) :
    Prop where
  last_record : run.log.getLast? = some record
  last_issue : record.issues.getLast? = some issue
  only_fatal : run.log.fatalIssues = [issue]
  flow_eq : run.machine.flow = some flow
  step_eq : flow.steps[record.stepIndex]? = some step
  names : record.flow = flow.name ∧ record.step = step.text
  stops : step.StopsAt run.machine.artifacts record.actions issue

/-- The status agrees with the log, and with the module that the run started with. -/
structure Consistent (start : Machine) (run : Run) : Prop where
  closed : run.machine.closed? = start.tpm.map fun _ => run.status.isTerminal
  clean : (∀ reason, run.status ≠ .aborted reason) → run.log.fatalIssues = []
  aborted : ∀ reason, run.status = .aborted reason →
    ∃ record issue flow step, issue.error = reason ∧ run.AbortedBy record issue flow step

variable {start : Machine} {run : Run} {flow : Flow} {step : Step}

theorem fatalIssues_concat (log : RunLog) (record : StepRecord) :
    RunLog.fatalIssues (log ++ [record]) = log.fatalIssues ++ record.issues.filter (·.fatal) := by
  rw [RunLog.fatalIssues, RunLog.fatalIssues, List.flatMap_append, List.filter_append,
    List.flatMap_singleton]

theorem Consistent.fatalIssues_eq_nil (h : run.Consistent start) (hopen : run.status.isTerminal = false) :
    run.log.fatalIssues = [] :=
  h.clean fun reason haborted => by
    rw [haborted] at hopen
    cases hopen

theorem filter_fatal_eq_nil {issues : List StepIssue} (h : ∀ issue ∈ issues, issue.fatal = false) :
    issues.filter (·.fatal) = [] :=
  List.filter_eq_nil_iff.mpr fun issue hmem => by
    rw [h issue hmem]
    decide

/-- A step without a failure adds no fatal issue. -/
theorem Consistent.proceed (h : run.Consistent start) (hdue : run.Due flow step)
    (hclean : (run.take step).Clean) :
    ((run.record flow step (run.take step)).proceed (run.take step).next).Consistent start := by
  have hlog : (run.record flow step (run.take step)).log.fatalIssues = [] := by
    rw [record, fatalIssues_concat, h.fatalIssues_eq_nil hdue.1, filter_fatal_eq_nil hclean.issues,
      List.append_nil]
  have hclosed : (run.take step).machine.closed? = start.tpm.map fun _ => false := by
    have hbefore := h.closed
    rw [hdue.1] at hbefore
    exact (Machine.steady_closed? _).take hbefore step
  cases (run.take step).next <;> exact ⟨hclosed, fun _ => hlog, fun _ h => by cases h⟩

/-- A step that fails leaves the only fatal issue. -/
theorem Consistent.abort (h : run.Consistent start) (hdue : run.Due flow step) {before : List StepIssue}
    {issue : StepIssue} (hissues : (run.take step).issues = before ++ [issue]) (hfatal : issue.fatal = true)
    (hbefore : ∀ other ∈ before, other.fatal = false)
    (hstops : step.StopsAt run.machine.artifacts (run.take step).performed issue) :
    ((run.record flow step (run.take step)).close (.aborted issue.error)).Consistent start := by
  have hartifacts : (run.take step).machine.artifacts = run.machine.artifacts :=
    (Machine.steady_artifacts _).take (P := fun m => m.artifacts = run.machine.artifacts) rfl step
  refine ⟨?_, fun hnone => absurd rfl (hnone issue.error), ?_⟩
  · have hclosed : (run.take step).machine.closed? = start.tpm.map fun _ => run.status.isTerminal :=
      (Machine.steady_closed? _).take h.closed step
    exact Machine.closed?_finish hclosed
  · intro reason hreason
    cases hreason
    refine ⟨_, issue, flow, step, rfl, List.getLast?_concat, ?_, ?_, ?_, ?_, ⟨rfl, rfl⟩, ?_⟩
    · show (run.take step).issues.getLast? = some issue
      rw [hissues, List.getLast?_concat]
    · show RunLog.fatalIssues (run.log ++ [_]) = [issue]
      rw [fatalIssues_concat, h.fatalIssues_eq_nil hdue.1, List.nil_append]
      show (run.take step).issues.filter (·.fatal) = [issue]
      rw [hissues, List.filter_append, filter_fatal_eq_nil hbefore, List.nil_append]
      exact List.filter_cons_of_pos hfatal
    · exact (run.flow_take step).trans hdue.2.1
    · exact hdue.2.2
    · show step.StopsAt (run.take step).machine.artifacts _ issue
      rw [hartifacts]
      exact hstops

theorem Consistent.next (h : run.Consistent start) : run.next.1.Consistent start := by
  obtain hterminal | hends | ⟨flow, step, hdue⟩ := run.due_cases
  · rw [next_of_isTerminal hterminal]
    exact h
  · rw [next_of_ends hends]
    exact ⟨Machine.closed?_finish h.closed, fun _ => h.fatalIssues_eq_nil hends.1, nofun⟩
  · obtain hclean | ⟨before, issue, hfailure, hissues, hfatal, hbefore, hstops⟩ := run.take_cases step
    · rw [next_of_take hdue hclean.failure_eq]
      exact h.proceed hdue hclean
    · rw [next_of_failure hdue hfailure]
      exact h.abort hdue hissues hfatal hbefore hstops

/-! ## Requests -/

/-- What can be asked of a run. -/
inductive Request where
  | next
  | finish

/-- The run after a request. -/
def serve (run : Run) : Request → Run
  | .next => run.next.1
  | .finish => run.finish

/-- A run that is over stays as it is. -/
theorem foldl_serve_of_isTerminal (h : run.status.isTerminal = true) (requests : List Request) :
    requests.foldl serve run = run := by
  induction requests with
  | nil => rfl
  | cons request rest ih =>
    have hsame : run.serve request = run := by
      cases request with
      | next => rw [serve, next_of_isTerminal h]
      | finish => exact finish_of_isTerminal h
    rw [List.foldl_cons, hsame, ih]

/-- Of a machine whose module is open, at every point of its run: there is no fatal issue unless the run was
aborted, the one that aborted it is the last issue of the last record, the module is closed as soon as the
run is over, and nothing that is asked of the run from then on changes it. -/
theorem status_consistent {m : Machine} {run : Run} (hopen : ∀ tpm, m.tpm = some tpm → tpm.finished = false)
    (hrun : (ofMachine m).Reaches run) :
    ((∀ reason, run.status ≠ .aborted reason) → ∀ record ∈ run.log, record.hasFatalIssue = false) ∧
    (∀ reason, run.status = .aborted reason →
      ∃ record issue flow step, issue.error = reason ∧ run.AbortedBy record issue flow step) ∧
    (run.machine.tpm.map (·.finished) = m.tpm.map fun _ => run.status.isTerminal) ∧
    (run.status.isTerminal = true → run.next = (run, false) ∧
      ∀ requests : List Request, requests.foldl serve run = run) := by
  have hstart : (ofMachine m).Consistent m := by
    refine ⟨?_, fun _ => rfl, nofun⟩
    show m.tpm.map (·.finished) = m.tpm.map fun _ => false
    exact Option.map_congr fun tpm htpm => hopen tpm htpm
  have h : run.Consistent m := by
    induction hrun with
    | start => exact hstart
    | next _ ih => exact ih.next
  refine ⟨fun hnone record hmem => ?_, h.aborted, h.closed, fun hterminal => ?_⟩
  · have hnone := List.filter_eq_nil_iff.mp (h.clean hnone)
    refine Bool.eq_false_iff.mpr fun hfatal => ?_
    obtain ⟨issue, hissue, hfatal⟩ := List.any_eq_true.mp hfatal
    exact hnone issue (List.mem_flatMap.mpr ⟨record, hmem, hissue⟩) hfatal
  · exact ⟨next_of_isTerminal hterminal, foldl_serve_of_isTerminal hterminal⟩

/-- A machine without an image. Its flow logs data of the image, which is skipped, and then gives up in the
middle of a step. -/
def givesUp : Machine where
  tpm := some Tpm.fresh
  flow := some (.mk "gives-up" [
    .static [.initTpm 0, .event 0 (.probe .fitPointer) "pointer", .panic "no image", .initTpm 3]])

theorem status_consistent_givesUp :
    let run := (ofMachine givesUp).next.1
    run.status = .aborted (.panic "no image") ∧
    (∃ record issue flow step, issue.error = .panic "no image" ∧ run.AbortedBy record issue flow step ∧
      issue.actionIndex = some 2 ∧ record.actions.length = 3) ∧
    run.machine.tpm.map (·.finished) = some true ∧
    [Request.next, .finish].foldl serve run = run := by
  intro run
  have hstatus : run.status = .aborted (.panic "no image") := by decide +kernel
  have hopen (tpm : Tpm) (htpm : givesUp.tpm = some tpm) : tpm.finished = false := by
    cases htpm
    rfl
  have hrun : (ofMachine givesUp).Reaches run := .next .start
  obtain ⟨-, haborted, hclosed, hover⟩ := status_consistent hopen hrun
  obtain ⟨record, issue, flow, step, herror, hby⟩ := haborted _ hstatus
  have hlast : run.log.getLast?.map (fun r => (r.issues.getLast?.bind (·.actionIndex), r.actions.length)) =
      some (some 2, 3) := by decide +kernel
  rw [hby.last_record, Option.map_some, hby.last_issue] at hlast
  rw [hstatus] at hclosed hover
  obtain ⟨hindex, hlength⟩ := Prod.mk.inj (Option.some.inj hlast)
  exact ⟨hstatus, ⟨record, issue, flow, step, herror, hby, hindex, hlength⟩, hclosed, (hover rfl).2 _⟩

end Run

end MeasuredBoot
