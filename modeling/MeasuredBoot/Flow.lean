import MeasuredBoot.Condition
import MeasuredBoot.DataSource.Locate

/-!
# Flows

A `Flow` is a named list of steps. A `Step` gives actions, which can depend on the artifacts of the
machine that boots. An `Action` either acts on the trusted platform module, or switches to another
flow, or gives up.

* `Step.actions`: the actions of a step for some artifacts;
* `Flow.stepCount`: the number of steps of a flow and of all flows that it can switch to.
-/

namespace MeasuredBoot

/-- The measurements that firmware vendors prescribe. -/
inductive PlatformStep where
  /-- Extends PCR 0 with the policy status register and the Firmware Interface Table. -/
  | pcr0Data
  /-- Extends PCR 0 with the initial boot block. -/
  | ibb
  /-- Logs the Embedded Firmware Structure. -/
  | embeddedFirmware
  /-- Extends PCR 0 with the BIOS directory tables, one after the other. -/
  | biosDirectory
  /-- Extends PCR 0 with the marker of the firmware vendor version. -/
  | vendorVersion
  deriving DecidableEq, Repr

/-- The text of a platform's step. -/
def PlatformStep.text : PlatformStep → String
  | .pcr0Data => "MeasurePCR0DATA"
  | .ibb => "MeasureIBB"
  | .embeddedFirmware => "MeasureEmbeddedFirmwareStructure"
  | .biosDirectory => "MeasureBIOSDirectory"
  | .vendorVersion => "MeasureFirmwareVendorVersion"

mutual

/-- A named list of steps. -/
inductive Flow where
  | mk (name : String) (steps : List Step)

/-- One point of decision of a flow. -/
inductive Step where
  /-- Always the same actions. -/
  | static (actions : List Action)
  /-- The actions of another step if a condition holds, and none otherwise. -/
  | guarded (condition : Condition) (step : Step)
  /-- The actions that a platform prescribes. -/
  | platform (step : PlatformStep)

/-- What a step does. -/
inductive Action where
  /-- Goes on with the first step of another flow after this step. -/
  | switchTo (flow : Flow)
  /-- Aborts the boot. -/
  | panic (message : String)
  /-- Starts the trusted platform module unless it runs at the locality already. -/
  | initTpm (locality : UInt8)
  /-- Extends a PCR with data. -/
  | extend (pcr : UInt8) (source : DataSource)
  /-- Logs data without an extension of the PCR that it is logged for. -/
  | event (pcr : UInt8) (source : DataSource) (description : String)

end

namespace Flow

/-- The name of a flow. -/
def name : Flow → String
  | mk name _ => name

/-- The steps of a flow. -/
def steps : Flow → List Step
  | mk _ steps => steps

/-- A short text that gives the number of steps in place of the steps. -/
def summary (flow : Flow) : String :=
  s!"Flow \x7b name: {Text.quote flow.name}, steps: {flow.steps.length} \x7d"

end Flow

/-- The text of an action. -/
def Action.text : Action → String
  | switchTo flow => s!"SetFlow({flow.name})"
  | panic message => s!"Panic({Text.quote message})"
  | initTpm locality => s!"TPMInitLazy({locality.toNat})"
  | extend pcr source => s!"TPMExtend(PCR{pcr.toNat}, {source.text})"
  | event pcr source description =>
    s!"TPMEvent(PCR{pcr.toNat}, {source.text}, {Text.quote description})"

/-- The text of a step. -/
def Step.text : Step → String
  | static actions => String.intercalate "; " (actions.map Action.text)
  | guarded condition step => s!"If({condition.text}, {step.text})"
  | platform step => step.text

/-- A listing of a flow with its steps numbered. -/
def Flow.text (flow : Flow) : String :=
  s!"flow {flow.name}:\n" ++ String.join (flow.steps.zipIdx.map fun (step, i) =>
    s!"  {Text.alignRight 2 (toString i)}. {step.text}\n")

/-- The actions of a platform's step. -/
def PlatformStep.actions (as : Artifacts) : PlatformStep → Except BootError (List Action)
  | pcr0Data => return [.extend 0 (.probe .pcr0Data)]
  | ibb => return [.extend 0 (.probe .ibb)]
  | embeddedFirmware => return [.event 0 (.probe .embeddedFirmware) "EmbeddedFirmware"]
  | biosDirectory => do
    let refs ← Probe.locate .biosDirectory as
    return refs.flatMap fun r => r.ranges.map fun range =>
      .extend 0 (.references [⟨r.space, [range]⟩])
  | vendorVersion => return [.extend 0 (.probe .vendorVersion)]

/-- The actions of a step. -/
def Step.actions (as : Artifacts) : Step → Except BootError (List Action)
  | static actions => return actions
  | guarded condition step => if condition.holds as then step.actions as else return []
  | platform step => step.actions as

mutual

/-- The number of steps of a flow and, recursively, of the flows that its steps can switch to. -/
def Flow.stepCount : Flow → Nat
  | .mk _ steps => stepsCount steps

/-- The number of some steps and, recursively, of the steps of the flows they can switch to. -/
def stepsCount : List Step → Nat
  | [] => 0
  | step :: rest => 1 + step.switchCount + stepsCount rest

/-- The number of steps of the flows that a step can switch to. -/
def Step.switchCount : Step → Nat
  | .static actions => actionsCount actions
  | .guarded _ step => step.switchCount
  | .platform _ => 0

/-- The number of steps of the flows that some actions switch to. -/
def actionsCount : List Action → Nat
  | [] => 0
  | action :: rest => action.switchCount + actionsCount rest

/-- The number of steps of the flow that an action switches to. -/
def Action.switchCount : Action → Nat
  | .switchTo flow => flow.stepCount
  | .panic _ => 0
  | .initTpm _ => 0
  | .extend _ _ => 0
  | .event _ _ _ => 0

end

theorem switchCount_le_actionsCount {action : Action} {actions : List Action}
    (h : action ∈ actions) : action.switchCount ≤ actionsCount actions := by
  induction h with
  | head => rw [actionsCount]; omega
  | tail _ _ ih => rw [actionsCount]; omega

theorem PlatformStep.not_switchTo {as : Artifacts} {step : PlatformStep} {actions : List Action}
    {flow : Flow} (h : step.actions as = .ok actions) : .switchTo flow ∉ actions := by
  cases step
  case biosDirectory =>
    simp only [PlatformStep.actions, bind, Except.bind] at h
    split at h
    · contradiction
    · cases h
      simp
  all_goals
    cases h
    simp

/-- The flow that an action of a step switches to has no more steps than were counted for it. -/
theorem Step.stepCount_le {as : Artifacts} (step : Step) {actions : List Action} {flow : Flow}
    (h : step.actions as = .ok actions) (hmem : .switchTo flow ∈ actions) :
    flow.stepCount ≤ step.switchCount := by
  match step with
  | .static _ =>
    cases h
    exact switchCount_le_actionsCount hmem
  | .guarded condition inner =>
    rw [Step.actions] at h
    split at h
    · exact inner.stepCount_le h hmem
    · cases h
      contradiction
  | .platform p => exact absurd hmem (p.not_switchTo h)

theorem stepsCount_drop {steps : List Step} {i : Nat} {step : Step} (h : steps[i]? = some step) :
    stepsCount (steps.drop i) = 1 + step.switchCount + stepsCount (steps.drop (i + 1)) := by
  obtain ⟨hi, rfl⟩ := List.getElem?_eq_some_iff.1 h
  rw [List.drop_eq_getElem_cons hi, stepsCount]

end MeasuredBoot
