import MeasuredBoot.Flow
import MeasuredBoot.Tpm

/-!
# Machines and the effect of actions

A `Machine` is what boots: artifacts, perhaps a trusted platform module, perhaps a flow, and a
record of what was measured. `Action.apply` carries out one action. It gives the machine afterwards
and either an outcome or a problem that has to abort the boot.
-/

namespace MeasuredBoot

/-- A machine. -/
structure Machine where
  artifacts : Artifacts := {}
  tpm : Option Tpm := none
  /-- The flow to be carried out. -/
  flow : Option Flow := none
  /-- What was measured, in order. -/
  measured : List MeasuredData := []

namespace Machine

/-- A machine without any parts. -/
def empty : Machine := {}

/-- A machine with an image and a module that was not started yet. -/
def ofImage (image : BiosImage) : Machine :=
  { artifacts := { image := some image }, tpm := some Tpm.fresh }

/-- Adds an artifact of a kind that is not there yet. -/
def insertArtifact (m : Machine) (a : Artifact) : Except ContractViolation Machine := do
  return { m with artifacts := ← m.artifacts.insert a }

/-- Adds a trusted platform module, of which there can be one. -/
def insertTpm (m : Machine) (tpm : Tpm) : Except ContractViolation Machine :=
  match m.tpm with
  | some _ => .error (.duplicateTrustChain .tpm)
  | none => .ok { m with tpm := some tpm }

/-- The trusted platform module. -/
def getTpm (m : Machine) : Except BootError Tpm :=
  match m.tpm with
  | some tpm => .ok tpm
  | none => .error (.chainMissing .tpm)

/-- Closes the trusted platform module. -/
def finish (m : Machine) : Machine := { m with tpm := m.tpm.map Tpm.finish }

/-- Carries out something on the trusted platform module. -/
def withTpm (m : Machine) (act : Tpm → Tpm × Except TpmError Unit) :
    Machine × Except BootError Unit :=
  match m.tpm with
  | none => (m, .error (.chainMissing .tpm))
  | some tpm =>
    let (after, result) := act tpm
    ({ m with tpm := some after }, result.mapError .tpm)

end Machine

/-- What an action led to. -/
inductive Outcome where
  /-- Nothing that is to be recorded. -/
  | done
  /-- Data was measured. -/
  | measured (m : MeasuredData)
  /-- The action was skipped for a problem that does not abort the boot. -/
  | skipped (issue : BootError)
  /-- Another flow is to be carried out next. -/
  | switched (flow : Flow)

/-- The commands that record a measurement in the bank of one algorithm. -/
def MeasuredData.commandsFor (record : MeasuredData) (kind : EventKind) (pcr : UInt8)
    (bytes : ByteArray) (description : String) (alg : Algorithm) :
    Except TpmError (List Command) := do
  let digest ← alg.hash bytes
  let logging := Command.eventLogAdd
    { pcr, alg, digest, kind, description, measured := some record }
  match kind with
  | .extend => return [.extend pcr alg digest, logging]
  | .informational => return [logging]

/-- The commands that record a measurement in the banks of some algorithms, in their order. -/
def MeasuredData.commands (record : MeasuredData) (kind : EventKind) (pcr : UInt8)
    (bytes : ByteArray) (description : String) (algs : List Algorithm) :
    Except TpmError (List Command) := do
  return (← algs.mapM (record.commandsFor kind pcr bytes description)).flatten

/-- Measures `bytes`, which are those of the data of `record`, and remembers the record if the
trusted platform module takes all commands. -/
def Machine.measure (m : Machine) (kind : EventKind) (pcr : UInt8) (bytes : ByteArray)
    (description : String) (record : MeasuredData) : Machine × Except BootError Outcome :=
  let act (tpm : Tpm) : Tpm × Except TpmError Unit :=
    match record.commands kind pcr bytes description tpm.algorithms with
    | .error e => (tpm, .error e)
    | .ok commands => tpm.send commands record.actor.coords
  match m.withTpm act with
  | (after, .error e) => (after, .error e)
  | (after, .ok ()) =>
    ({ after with measured := after.measured ++ [record] }, .ok (.measured record))

/-- The data of a source and its bytes. -/
def DataSource.fetch (source : DataSource) (as : Artifacts) :
    Except BootError (Data × ByteArray) := do
  let data ← source.locate as
  let bytes ← (data.bytes as).mapError .contract
  return (data, bytes)

/-- Carries out an action on behalf of an actor. -/
def Action.apply (m : Machine) (actor : Actor) : Action → Machine × Except BootError Outcome
  | switchTo flow => (m, .ok (.switched flow))
  | panic message => (m, .error (.panic message))
  | initTpm locality =>
    match m.withTpm (·.initLazy locality actor.coords) with
    | (after, result) => (after, result.map fun _ => .done)
  | extend pcr source =>
    match source.fetch m.artifacts with
    | .error e => (m, .error e)
    | .ok (data, bytes) =>
      if bytes.isEmpty then (m, .ok (.skipped (.emptyMeasurement source.text)))
      else m.measure .extend pcr bytes source.text { data, source := some source, actor }
  | event pcr source description =>
    match source.fetch m.artifacts with
    | .error e => (m, .ok (.skipped e))
    | .ok (data, bytes) =>
      m.measure .informational pcr bytes description { data, source := some source, actor }

theorem Machine.flow_withTpm (m : Machine) (act : Tpm → Tpm × Except TpmError Unit) :
    (m.withTpm act).1.flow = m.flow := by
  unfold Machine.withTpm
  split <;> rfl

theorem Machine.flow_measure (m : Machine) (kind : EventKind) (pcr : UInt8) (bytes : ByteArray)
    (description : String) (record : MeasuredData) :
    (m.measure kind pcr bytes description record).1.flow = m.flow := by
  simp only [Machine.measure]
  split
  next h => exact (congrArg (·.1.flow) h).symm.trans (m.flow_withTpm _)
  next h => exact (congrArg (·.1.flow) h).symm.trans (m.flow_withTpm _)

/-- No action changes the flow of the machine; the run does so after the step. -/
theorem Action.flow_apply (m : Machine) (actor : Actor) (action : Action) :
    (action.apply m actor).1.flow = m.flow := by
  cases action with
  | switchTo | panic => rfl
  | initTpm => exact m.flow_withTpm _
  | extend =>
    rw [Action.apply]
    split
    · rfl
    · split
      · rfl
      · exact m.flow_measure ..
  | event =>
    rw [Action.apply]
    split
    · rfl
    · exact m.flow_measure ..

theorem Machine.measure_ne_switched (m : Machine) (kind : EventKind) (pcr : UInt8)
    (bytes : ByteArray) (description : String) (record : MeasuredData) (flow : Flow) :
    (m.measure kind pcr bytes description record).2 ≠ .ok (.switched flow) := by
  simp only [Machine.measure]
  split <;> nofun

/-- Only an action that is a switch makes the run switch. -/
theorem Action.eq_switchTo_of_apply {m : Machine} {actor : Actor} {action : Action} {flow : Flow}
    (h : (action.apply m actor).2 = .ok (.switched flow)) : action = .switchTo flow := by
  cases action with
  | switchTo =>
    cases h
    rfl
  | panic => cases h
  | initTpm locality =>
    simp only [Action.apply] at h
    cases hr : (m.withTpm (·.initLazy locality actor.coords)).2 <;> rw [hr] at h <;> cases h
  | extend =>
    rw [Action.apply] at h
    split at h
    · cases h
    · split at h
      · cases h
      · exact (m.measure_ne_switched _ _ _ _ _ _ h).elim
  | event =>
    rw [Action.apply] at h
    split at h
    · cases h
    · exact (m.measure_ne_switched _ _ _ _ _ _ h).elim

end MeasuredBoot
