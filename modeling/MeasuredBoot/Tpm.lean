import MeasuredBoot.Tpm.Command
import MeasuredBoot.Tpm.PcrValues

/-!
# Trusted platform module

A `Tpm` keeps PCR values in the banks of some hash functions, an event log and a log of the commands
that it took. It changes only by `Tpm.send`, which takes a batch of commands as a whole or not at
all, and by `Tpm.finish`, after which it takes no commands.

* `Tpm.initLazy`: starts the module unless it runs at the wanted locality already;
* `Tpm.replay`: a fresh module after the commands of a log, one by one.
-/

namespace MeasuredBoot

/-- A trusted platform module, as far as its PCRs are concerned. -/
structure Tpm where
  /-- The hash functions that have a bank, in ascending order. -/
  algorithms : List Algorithm
  /-- No rows until the module is started. -/
  pcrs : PcrValues := []
  /-- The locality that the module was started at. -/
  locality : Option UInt8 := none
  eventLog : List Event := []
  commandLog : List LoggedCommand := []
  finished : Bool := false
  deriving Inhabited

namespace Tpm

/-- The number of PCRs. -/
def pcrCount : Nat := 24

/-- The banks of a module that is built without a choice of algorithms. -/
def defaultAlgorithms : List Algorithm := [.sha1, .sha256]

/-- A module with the default banks that was not started yet. -/
def fresh : Tpm := { algorithms := defaultAlgorithms }

/-- A module that was not started yet, with banks for the given hash functions. -/
def withAlgorithms (algorithms : List Algorithm) : Except TpmError Tpm :=
  match algorithms.find? fun alg => !alg.isHash with
  | some alg => .error (.unsupportedHashAlgorithm alg)
  | none => .ok { algorithms := Algorithm.hashes.filter (algorithms.contains ·) }

/-- Whether the module was started. -/
def isInitialized (tpm : Tpm) : Bool := tpm.locality.isSome

/-- The value of a PCR in the bank of an algorithm. -/
def pcrValue (tpm : Tpm) (pcr : UInt8) (alg : Algorithm) : Except TpmError ByteArray :=
  tpm.pcrs.get pcr alg

/-- The events about a PCR in the bank of an algorithm, in order. -/
def eventsFor (tpm : Tpm) (pcr : UInt8) (alg : Algorithm) : List Event :=
  tpm.eventLog.filter (·.isFor pcr alg)

/-- The PCR values of a module with the given banks that was just started. -/
def startingValues (algorithms : List Algorithm) (locality : UInt8) : Except TpmError PcrValues :=
  algorithms.foldlM
    (fun values alg => do values.set 0 alg (← alg.initialValue 0 locality))
    (PcrValues.allocate pcrCount algorithms)

/-- Starts the module, which can be done once. -/
def start (tpm : Tpm) (locality : UInt8) : Except TpmError Tpm :=
  match tpm.locality with
  | some current => .error (.alreadyInitialized current locality)
  | none => do
    let values ← startingValues tpm.algorithms locality
    return { tpm with pcrs := values, locality := some locality }

/-- Extends a PCR in the bank of an algorithm. -/
def extend (tpm : Tpm) (pcr : UInt8) (alg : Algorithm) (digest : ByteArray) :
    Except TpmError Tpm := do
  let expected ← alg.digestSize
  if digest.size ≠ expected then
    throw (.digestSizeMismatch alg expected digest.size)
  let value ← alg.extend (← tpm.pcrs.get pcr alg) digest
  return { tpm with pcrs := ← tpm.pcrs.set pcr alg value }

/-- The effect of one command, apart from the command log. -/
def apply (tpm : Tpm) : Command → Except TpmError Tpm
  | .init locality => tpm.start locality
  | .extend pcr alg digest => tpm.extend pcr alg digest
  | .eventLogAdd event => .ok { tpm with eventLog := tpm.eventLog ++ [event] }

/-- Applies commands in order up to the first one that is refused. Gives the module as it is then,
and the refusal with the position of the command, where the first of the commands has `index`. -/
def applyUntilRefused (tpm : Tpm) (index : Nat) : List Command → Tpm × Option TpmError
  | [] => (tpm, none)
  | command :: rest =>
    match tpm.apply command with
    | .ok next => next.applyUntilRefused (index + 1) rest
    | .error reason => (tpm, some (.commandFailed index command.name reason))

/-- Takes back the effects of commands that were applied to `before` but not logged. -/
def rollback (after before : Tpm) : Tpm :=
  { after with
    pcrs := before.pcrs
    locality := before.locality
    eventLog := after.eventLog.take before.eventLog.length }

/-- Sends a batch of commands. Either all of them take effect and are logged with their cause, or
none does. -/
def send (tpm : Tpm) (commands : List Command) (cause : Coordinates) : Tpm × Except TpmError Unit :=
  if tpm.finished then (tpm, .error .finished)
  else match tpm.applyUntilRefused 0 commands with
    | (after, some refusal) => (after.rollback tpm, .error refusal)
    | (after, none) =>
      ({ after with commandLog := after.commandLog ++ commands.map (⟨·, cause⟩) }, .ok ())

/-- Starts the module, unless it was started at the same locality before. -/
def initLazy (tpm : Tpm) (locality : UInt8) (cause : Coordinates) : Tpm × Except TpmError Unit :=
  match tpm.locality with
  | some current =>
    if current = locality then (tpm, .ok ())
    else (tpm, .error (.alreadyInitialized current locality))
  | none => tpm.send [.init locality] cause

/-- Closes the module. -/
def finish (tpm : Tpm) : Tpm := { tpm with finished := true }

/-- The module after the commands of a log, each sent on its own. -/
def sendAll (tpm : Tpm) (log : List LoggedCommand) : Except TpmError Tpm :=
  log.foldlM
    (fun tpm entry =>
      match tpm.send [entry.command] entry.cause with
      | (next, .ok ()) => .ok next
      | (_, .error e) => .error e)
    tpm

/-- A fresh module with the given banks after the commands of a log. -/
def replay (algorithms : List Algorithm) (log : List LoggedCommand) : Except TpmError Tpm := do
  (← withAlgorithms algorithms).sendAll log

end Tpm

end MeasuredBoot
