import MeasuredBoot.Run
import MeasuredBoot.Text.Json

/-!
# Reports on runs

What a run measured, as text for people (`Report.text`) or as JSON (`Report.json`).
-/

namespace MeasuredBoot.Report

/-- PCR 0 and the PCRs that the event log mentions, in ascending order. -/
def measuredPcrs (tpm : Tpm) : List UInt8 :=
  let mentioned := tpm.eventLog.map (·.pcr.toNat)
  ((List.range 256).filter fun pcr => pcr == 0 || mentioned.contains pcr).map Nat.toUInt8

/-- The lines for the values of the measured PCRs. -/
def pcrLines (tpm : Tpm) : List String :=
  (measuredPcrs tpm).flatMap fun pcr =>
    (tpm.pcrs.banks pcr).map fun (alg, value) =>
      s!"PCR{pcr.toNat} {Text.alignLeft 6 alg.name} {Hex.encode value}"

/-- What a trusted platform module took, and the values that it ended with. -/
def tpmText (tpm : Tpm) : String :=
  "\n== Command log ==\n" ++ LoggedCommand.listing tpm.commandLog ++
  "\n== PCR values ==\n" ++ String.join ((pcrLines tpm).map (· ++ "\n")) ++
  "\n== Event log ==\n" ++ Text.numbered 4 (tpm.eventLog.map Event.text)

/-- The report as text. -/
def text (run : Run) : String :=
  let steps := "== Steps ==\n" ++ run.log.text ++ s!"status: {run.status.text}\n"
  match run.machine.tpm with
  | none => steps
  | some tpm =>
    steps ++ tpmText tpm ++ "\n== Measured data ==\n" ++ MeasuredData.listing run.machine.measured

/-- The record of a step in JSON. -/
def stepJson (record : StepRecord) : Json := .object [
  ("flow", .string record.flow),
  ("flow_index", .number record.flowIndex),
  ("step_index", .number record.stepIndex),
  ("step", .string record.step),
  ("actions", .strings (record.actions.map Action.text)),
  ("issues", .strings (record.issues.map StepIssue.text))]

/-- The values of the measured PCRs in JSON, by algorithm and then by PCR. -/
def pcrsJson (tpm : Tpm) : Json :=
  .object <| Algorithm.hashes.filterMap fun alg =>
    let values := (measuredPcrs tpm).filterMap fun pcr =>
      ((tpm.pcrs.banks pcr).find? (·.1 == alg)).map fun (_, value) =>
        (toString pcr.toNat, Json.string (Hex.encode value))
    if values.isEmpty then none else some (alg.name, .object values)

/-- An event in JSON. -/
def eventJson (e : Event) : Json := .object [
  ("pcr", .number e.pcr.toNat),
  ("alg", .string e.alg.name),
  ("event_type", .string e.kind.name),
  ("digest", .string (Hex.encode e.digest)),
  ("description", .string e.description)]

/-- Coordinates in JSON. -/
def coordinatesJson (c : Coordinates) : Json := .object [
  ("flow_index", .number c.flowIndex),
  ("step_index", .number c.stepIndex),
  ("action_index", .number c.actionIndex)]

/-- A range in JSON. -/
def rangeJson (r : Range) : Json := .object [
  ("offset", .number r.offset.toNat),
  ("length", .number r.length.toNat)]

/-- A reference in JSON. -/
def referenceJson (r : Reference) : Json := .object [
  ("artifact", .string r.artifact.name),
  ("mapper", .string? (r.mapper.map AddressMapper.name)),
  ("ranges", .array (r.ranges.map rangeJson))]

/-- References in JSON. -/
def referencesJson (rs : References) : Json := .array (rs.map referenceJson)

/-- The name of a trust chain in JSON. -/
def chainJson : TrustChain → Json
  | .tpm => .string "Tpm"

/-- A record of measured data in JSON, with its bytes if they can be read. -/
def measuredJson (as : Artifacts) (m : MeasuredData) : Json := .object [
  ("actor", .string m.actor.text),
  ("coords", coordinatesJson m.actor.coords),
  ("trust_chain", chainJson m.chain),
  ("source", .string? (m.source.map DataSource.text)),
  ("data", .string m.data.text),
  ("references", match m.data.references? with
    | some refs => referencesJson refs
    | none => .null),
  ("bytes", match m.data.bytes as with
    | .ok bytes => .string (Hex.encode bytes)
    | .error _ => .null)]

/-- The report in JSON, where the flow was asked for by name. -/
def json (flowName : String) (run : Run) : Json :=
  let fromTpm (f : Tpm → Json) (without : Json) : Json :=
    match run.machine.tpm with
    | some tpm => f tpm
    | none => without
  .object [
    ("flow", .string flowName),
    ("status", .string run.status.text),
    ("steps", .array (run.log.map stepJson)),
    ("pcrs", fromTpm pcrsJson (.object [])),
    ("commands", fromTpm (fun tpm => .strings (tpm.commandLog.map LoggedCommand.text)) (.array [])),
    ("event_log", fromTpm (fun tpm => .array (tpm.eventLog.map eventJson)) (.array [])),
    ("measured", .array (run.machine.measured.map (measuredJson run.machine.artifacts)))]

end MeasuredBoot.Report
