import MeasuredBoot.CommandLine.Arguments
import MeasuredBoot.CommandLine.Input
import MeasuredBoot.Flow.Catalogue
import MeasuredBoot.Report

/-!
# The command that simulates a boot

`pcr0sum` carries out a flow for a firmware image and reports what was measured.
-/

namespace MeasuredBoot

/-- The options of the command. -/
structure SumOptions where
  firmware : Option String := none
  flow : Option String := none
  registers : Option String := none
  algorithms : List Algorithm := []
  json : Bool := false
  deriving DecidableEq, Repr

namespace SumOptions

/-- The names of the arguments. -/
def names : ArgumentNames := ⟨["flow", "registers", "alg"], ["json"]⟩

/-- Takes one argument into account. Only `--alg` can be repeated, and paths are not empty. -/
def put (o : SumOptions) : Argument → Option SumOptions
  | .positional path =>
    if o.firmware.isNone && path ≠ "" then some { o with firmware := some path } else none
  | .option "flow" name => if o.flow.isNone then some { o with flow := some name } else none
  | .option "registers" path =>
    if o.registers.isNone && path ≠ "" then some { o with registers := some path } else none
  | .option "alg" name =>
    (Algorithm.parse? name).map fun alg => { o with algorithms := o.algorithms ++ [alg] }
  | .flag "json" => if o.json then none else some { o with json := true }
  | _ => none

/-- Reads the arguments of the command; the firmware has to be given. -/
def read (arguments : List String) : Invocation SumOptions :=
  match Invocation.ofArguments put {} (Arguments.read names arguments) with
  | .run o => if o.firmware.isSome then .run o else .misuse
  | other => other

/-- The help text of the command. -/
def help : String :=
  "Simulate the measured boot of a firmware image and print the resulting PCRs\n\n" ++
  "Usage: pcr0sum [OPTIONS] <FIRMWARE>\n\n" ++
  "Arguments:\n" ++
  "  <FIRMWARE>  Firmware image to boot\n\n" ++
  "Options:\n" ++
  "      --flow <FLOW>            " ++
    "Flow to run: root, intel, amd or ocp-pei [default: root]\n" ++
  "      --registers <REGISTERS>  " ++
    "JSON object with register values, e.g. \x7b\"ACM_POLICY_STATUS\": 12345\x7d\n" ++
  "      --alg <ALGORITHMS>       TPM banks to allocate (repeatable)\n" ++
  "      --json                   Print a JSON report instead of text\n" ++
  "  -h, --help                   Print help\n"

/-- The name of the flow to carry out. -/
def flowName (o : SumOptions) : String := o.flow.getD Flow.root.name

/-- The machine to boot. -/
def machine (o : SumOptions) (firmware : InputFile) (registers : Option InputFile) :
    Except Complaint Machine := do
  let image ← firmware.image
  let algorithms := if o.algorithms.isEmpty then Tpm.defaultAlgorithms else o.algorithms
  let tpm ← (Tpm.withAlgorithms algorithms).mapError fun e =>
    ⟨"invalid TPM banks", [e.message]⟩
  let snapshot ← registers.mapM InputFile.registers
  return { artifacts := { image := some image, snapshot }, tpm := some tpm }

/-- The report on a run. -/
def report (o : SumOptions) (run : Run) : String :=
  if o.json then (Report.json o.flowName run).pretty ++ "\n" else Report.text run

/-- Carries out the command. A boot that is aborted is reported, too. -/
def complete (o : SumOptions) (firmware : InputFile) (registers : Option InputFile) : Completion :=
  match Flow.named? o.flowName with
  | none =>
    let known := String.intercalate ", " (Flow.catalogue.map Flow.name)
    .failure ⟨s!"unknown flow '{o.flowName}', expected one of: {known}", []⟩ ""
  | some flow =>
    match o.machine firmware registers with
    | .error complaint => .failure complaint ""
    | .ok machine =>
      let run := (Run.withFlow machine flow).finish
      match run.status with
      | .aborted reason => .failure ⟨"boot flow aborted: " ++ reason.message, []⟩ (o.report run)
      | _ => ⟨0, o.report run, none⟩

end SumOptions

end MeasuredBoot
