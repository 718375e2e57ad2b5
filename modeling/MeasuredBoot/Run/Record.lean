import MeasuredBoot.Machine

/-!
# The record of a run

A run leaves a `StepRecord` for each step that it took, with the actions that were carried out, what
they measured and the problems that came up (`StepIssue`). Its `RunStatus` tells whether it is over.
-/

namespace MeasuredBoot

/-- How far a run got. -/
inductive RunStatus where
  | notStarted
  | running
  | finished
  | aborted (reason : BootError)
  deriving DecidableEq, Repr

namespace RunStatus

/-- Whether a run is over. -/
def isTerminal : RunStatus → Bool
  | notStarted | running => false
  | finished | aborted _ => true

/-- The text of a status. -/
def text : RunStatus → String
  | notStarted => "not started"
  | running => "running"
  | finished => "finished"
  | aborted reason => "aborted: " ++ reason.message

end RunStatus

/-- A problem that came up in a step. -/
structure StepIssue where
  /-- The action, unless the step's actions could not be told. -/
  actionIndex : Option Nat
  /-- Whether the problem aborted the run. -/
  fatal : Bool
  error : BootError
  deriving DecidableEq, Repr

/-- The text of an issue. -/
def StepIssue.text (issue : StepIssue) : String :=
  let severity := if issue.fatal then "fatal" else "issue"
  match issue.actionIndex with
  | some i => s!"{severity} in action #{i}: {issue.error.message}"
  | none => s!"{severity}: {issue.error.message}"

/-- The record of a step. -/
structure StepRecord where
  /-- The name of the flow. -/
  flow : String
  /-- The number of flows that the run switched to before. -/
  flowIndex : Nat
  stepIndex : Nat
  /-- The text of the step. -/
  step : String
  /-- The actions that were carried out; the last one may have failed. -/
  actions : List Action
  measured : List MeasuredData
  issues : List StepIssue

namespace StepRecord

/-- Whether a problem of the step aborted the run. -/
def hasFatalIssue (record : StepRecord) : Bool := record.issues.any (·.fatal)

/-- The text of a record: a line for the step, and one for each thing that happened in it. -/
def text (record : StepRecord) : String :=
  let head := s!"{record.flow}#{record.flowIndex} step {record.stepIndex}: {record.step}"
  let details :=
    record.actions.map (fun action => "action: " ++ action.text) ++
    record.measured.map (fun m => "measured: " ++ m.text) ++
    record.issues.map StepIssue.text
  s!"{head}\n" ++ String.join (details.map fun detail => s!"    {detail}\n")

end StepRecord

/-- The records of a run, in order. -/
abbrev RunLog := List StepRecord

namespace RunLog

/-- Everything that was measured into a trust chain, in order. -/
def measuredWith (log : RunLog) (chain : TrustChain) : List MeasuredData :=
  (log.flatMap (·.measured)).filter (·.chain = chain)

/-- The text of a log. -/
def text (log : RunLog) : String := String.join (log.map StepRecord.text)

end RunLog

end MeasuredBoot
