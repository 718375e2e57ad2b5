import MeasuredBoot.CommandLine.Recover
import MeasuredBoot.CommandLine.Sum

/-!
# The program

The first argument names the command, `pcr0sum` or `pcr0recover`; the others are its arguments.
-/

namespace MeasuredBoot

/-- Reads a file, or finds out why it cannot be read. -/
def readInput (path : String) : IO InputFile := do
  try
    return ⟨path, .ok (← IO.FS.readBinFile path)⟩
  catch e =>
    return ⟨path, .error (toString e)⟩

/-- Writes what a command leaves behind. -/
def conclude (c : Completion) : IO UInt32 := do
  IO.print c.output
  match c.complaint with
  | some complaint => IO.eprintln complaint.text
  | none => pure ()
  return c.code.toUInt32

/-- Carries out a command, shows its help, or says how it is used. -/
def invoke {α : Type} (invocation : Invocation α) (help : String) (carryOut : α → IO Completion) :
    IO UInt32 := do
  match invocation with
  | .run options => conclude (← carryOut options)
  | .help => conclude ⟨0, help, none⟩
  | .misuse =>
    IO.eprint ("error: invalid arguments\n\n" ++ help)
    return 2

/-- Carries out `pcr0sum`. -/
def runSum (o : SumOptions) : IO Completion := do
  let firmware ← readInput (o.firmware.getD "")
  let registers ← o.registers.mapM readInput
  return o.complete firmware registers

/-- Carries out `pcr0recover`. -/
def runRecover (o : RecoverOptions) : IO Completion := do
  let firmware ← readInput (o.firmware.getD "")
  let registers ← readInput (o.registers.getD "")
  return o.complete firmware registers

end MeasuredBoot

open MeasuredBoot in
/-- Carries out the command that the first argument names. -/
def main (arguments : List String) : IO UInt32 := do
  match arguments with
  | "pcr0sum" :: rest => invoke (SumOptions.read rest) SumOptions.help runSum
  | "pcr0recover" :: rest => invoke (RecoverOptions.read rest) RecoverOptions.help runRecover
  | _ =>
    IO.eprintln "usage: pcr0sum|pcr0recover ARGUMENTS"
    return 2
