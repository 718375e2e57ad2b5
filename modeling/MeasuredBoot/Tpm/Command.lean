import MeasuredBoot.Data

/-!
# Events, commands and their logs

A `Command` is the only way to change a trusted platform module. Commands are logged with the place
of the action that sent them; an `Event` is an entry of the event log, which a command adds.
-/

namespace MeasuredBoot

/-- Whether an event came with an extension of the PCR. -/
inductive EventKind where
  | extend
  | informational
  deriving DecidableEq, Repr

/-- The name of a kind of event. -/
def EventKind.name : EventKind → String
  | .extend => "extend"
  | .informational => "info"

/-- An entry of the event log. -/
structure Event where
  pcr : UInt8
  alg : Algorithm
  digest : ByteArray
  kind : EventKind
  description : String
  measured : Option MeasuredData

namespace Event

/-- The text of an event. -/
def text (e : Event) : String :=
  s!"PCR{e.pcr.toNat} {e.alg.name} {e.kind.name} {Hex.encode e.digest} {e.description}"

/-- Whether an event is about a PCR in the bank of an algorithm. -/
def isFor (e : Event) (pcr : UInt8) (alg : Algorithm) : Bool := e.pcr == pcr && e.alg == alg

end Event

/-- A command to a trusted platform module. -/
inductive Command where
  /-- Starts the module at a locality. -/
  | init (locality : UInt8)
  /-- Extends a PCR in the bank of an algorithm. -/
  | extend (pcr : UInt8) (alg : Algorithm) (digest : ByteArray)
  /-- Adds an event to the event log. -/
  | eventLogAdd (event : Event)

namespace Command

/-- The name of a command. -/
def name : Command → String
  | .init _ => "Init"
  | .extend .. => "Extend"
  | .eventLogAdd _ => "EventLogAdd"

/-- The text of a command. -/
def text : Command → String
  | .init locality => s!"TPMInit(locality: {locality.toNat})"
  | .extend pcr alg digest => s!"TPMExtend(PCR: {pcr.toNat}, {alg.name}: {Hex.encode digest})"
  | .eventLogAdd event => s!"TPMEventLogAdd({event.text})"

end Command

/-- A command and the place of the action that sent it. -/
structure LoggedCommand where
  command : Command
  cause : Coordinates

namespace LoggedCommand

/-- The text of an entry of the command log. -/
def text (c : LoggedCommand) : String := s!"{c.command.text} <- {c.cause.text}"

/-- A numbered listing of a command log. -/
def listing (log : List LoggedCommand) : String := Text.numbered 4 (log.map text)

end LoggedCommand

end MeasuredBoot
