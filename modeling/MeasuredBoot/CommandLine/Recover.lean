import MeasuredBoot.CommandLine.Arguments
import MeasuredBoot.CommandLine.Input
import MeasuredBoot.Flow.Catalogue
import MeasuredBoot.Recovery
import MeasuredBoot.Run

/-!
# The command that recovers a register

`pcr0recover` boots a firmware image and searches for the register value that makes PCR 0 equal to
an expected value.
-/

namespace MeasuredBoot

/-- The options of the command. -/
structure RecoverOptions where
  firmware : Option String := none
  registers : Option String := none
  expected : Option String := none
  alg : Option Algorithm := none
  register : Option Register := none
  maxDistance : Option Nat := none
  maxConcurrency : Option Nat := none
  deriving DecidableEq, Repr

namespace RecoverOptions

/-- The names of the arguments. -/
def names : ArgumentNames :=
  ⟨["registers", "expected", "alg", "register", "max-distance", "max-concurrency"], []⟩

/-- Gives a value to an option that has none yet. -/
def once {α : Type} (old : Option α) (value : Option α) : Option (Option α) :=
  if old.isSome then none else value.map some

/-- A path, which is not empty. -/
def path? (text : String) : Option String := if text = "" then none else some text

/-- Takes one argument into account. No argument can be repeated. -/
def put (o : RecoverOptions) : Argument → Option RecoverOptions
  | .positional text => (once o.firmware (path? text)).map ({ o with firmware := · })
  | .option "registers" text => (once o.registers (path? text)).map ({ o with registers := · })
  | .option "expected" text => (once o.expected (some text)).map ({ o with expected := · })
  | .option "alg" name => (once o.alg (Algorithm.parse? name)).map ({ o with alg := · })
  | .option "register" name =>
    (once o.register (Register.parse? name)).map ({ o with register := · })
  | .option "max-distance" n =>
    (once o.maxDistance (readNumber? UInt64.size n)).map ({ o with maxDistance := · })
  | .option "max-concurrency" n =>
    (once o.maxConcurrency (readNumber? UInt64.size n)).map ({ o with maxConcurrency := · })
  | _ => none

/-- Reads the arguments of the command; the firmware, the registers and the expected value have to
be given. -/
def read (arguments : List String) : Invocation RecoverOptions :=
  match Invocation.ofArguments put {} (Arguments.read names arguments) with
  | .run o =>
    if o.firmware.isSome && o.registers.isSome && o.expected.isSome then .run o else .misuse
  | other => other

/-- The help text of the command. -/
def help : String :=
  "Find the register value that makes the simulated PCR0 match an expected value\n\n" ++
  "Usage: pcr0recover [OPTIONS] --registers <REGISTERS> --expected <EXPECTED> <FIRMWARE>\n\n" ++
  "Arguments:\n" ++
  "  <FIRMWARE>  Firmware image to boot\n\n" ++
  "Options:\n" ++
  "      --registers <REGISTERS>\n" ++
  "          JSON object with register values, e.g. \x7b\"ACM_POLICY_STATUS\": 12345\x7d\n" ++
  "      --expected <EXPECTED>\n" ++
  "          Expected PCR0 value, hex\n" ++
  "      --alg <ALG>\n" ++
  "          PCR bank the expected value belongs to [default: sha256]\n" ++
  "      --register <REGISTER>\n" ++
  "          Register to correct [default: ACM_POLICY_STATUS]\n" ++
  "      --max-distance <MAX_DISTANCE>\n" ++
  "          Maximum number of flipped bits [default: 3]\n" ++
  "      --max-concurrency <MAX_CONCURRENCY>\n" ++
  "          Maximum worker threads, 0 for one per CPU [default: 0]\n" ++
  "  -h, --help\n" ++
  "          Print help\n"

/-- Text without any `0x` in front. -/
def dropMarks : List Char → List Char
  | '0' :: 'x' :: rest => dropMarks rest
  | text => text

/-- The expected value of PCR 0. -/
def expectedValue (o : RecoverOptions) : Except Complaint ByteArray :=
  match Hex.decode? (String.ofList (dropMarks (o.expected.getD "").toList)) with
  | some value => .ok value
  | none => .error ⟨"expected PCR0 is not valid hex", ["not pairs of digits"]⟩

/-- The bank of the expected value. -/
def bank (o : RecoverOptions) : Algorithm := o.alg.getD .sha256

/-- The register to correct. -/
def target (o : RecoverOptions) : Register := o.register.getD .acmPolicyStatus

/-- The largest number of flipped bits. -/
def distance (o : RecoverOptions) : Nat := o.maxDistance.getD 3

/-- Who does the search. -/
def workforce (o : RecoverOptions) : Workforce := { maxWorkers := o.maxConcurrency.getD 0 }

/-- The machine after its boot. -/
def bootedMachine (firmware registers : InputFile) : Except Complaint Machine := do
  let image ← firmware.image
  let snapshot ← registers.registers
  let machine : Machine :=
    { artifacts := { image := some image, snapshot := some snapshot }, tpm := some Tpm.fresh }
  let run := (Run.withFlow machine Flow.root).finish
  match run.status with
  | .aborted reason => throw ⟨"boot flow aborted: " ++ reason.message, []⟩
  | _ => return run.machine

/-- The complaint about a recovery that failed. -/
def complaintOf (e : RecoveryError) : Complaint := ⟨e.message, e.causes⟩

/-- Searches for the register in a replay that does not end in the expected value. -/
def search (o : RecoverOptions) (replay : PcrReplay) (expected : ByteArray) :
    Except RecoveryError (Option RecoveredRegister) :=
  match replay.locate? o.target with
  | none => .error (.registerNotMeasured o.target 0)
  | some location => replay.recover o.workforce location expected o.distance

/-- Compares a replay with the expected value, and searches for the register if they differ. -/
def explain (o : RecoverOptions) (replay : PcrReplay) (simulated expected : ByteArray) :
    Completion :=
  let first := s!"simulated PCR0 {o.bank.name}: {Hex.encode simulated}\n"
  if simulated.data = expected.data then
    ⟨0, first ++ "simulated PCR0 already matches, nothing to recover\n", none⟩
  else
    match o.search replay expected with
    | .error e => .failure (complaintOf e) first
    | .ok (some recovered) => ⟨0, first ++ recovered.text ++ "\n", none⟩
    | .ok none =>
      ⟨1, first ++ s!"no {o.target.name} value within {o.distance} flipped bits reproduces " ++
        "the expected PCR0\n", none⟩

/-- Carries out the command. -/
def complete (o : RecoverOptions) (firmware registers : InputFile) : Completion :=
  match o.expectedValue with
  | .error complaint => .failure complaint ""
  | .ok expected =>
    match bootedMachine firmware registers with
    | .error complaint => .failure complaint ""
    | .ok machine =>
      match PcrReplay.ofMachine machine 0 o.bank with
      | .error e => .failure (complaintOf e) ""
      | .ok replay =>
        match replay.finalValue with
        | .error e => .failure (complaintOf e) ""
        | .ok simulated => o.explain replay simulated expected

end RecoverOptions

end MeasuredBoot
