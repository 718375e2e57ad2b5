import MeasuredBoot.DataSource
import MeasuredBoot.Text.Layout
import MeasuredBoot.Text.Quoted
import MeasuredBoot.Tpm.Error

/-!
# Data and measured data

`Data` is what is measured: bytes given by value or by reference, optionally passed through a
`Converter`. `MeasuredData` records that data was measured, where the data came from, and which
action did it (`Actor`, `Coordinates`).
-/

namespace MeasuredBoot

/-- A named function on byte strings. -/
structure Converter where
  name : String
  apply : ByteArray → ByteArray

namespace Converter

/-- The converter that replaces bytes by their digest. -/
def digest (alg : Algorithm) : Except TpmError Converter :=
  if alg.isHash then
    .ok ⟨"digest:" ++ alg.name, fun bytes => (alg.digest? bytes).getD ByteArray.empty⟩
  else .error (.unsupportedHashAlgorithm alg)

/-- A short text that gives the name in place of the function. -/
def summary (c : Converter) : String := "Converter(" ++ Text.quote c.name ++ ")"

end Converter

/-- Bytes by value or by reference. -/
inductive DataContent where
  | forced (bytes : ByteArray)
  | references (refs : References)

/-- Bytes by value or by reference, to be passed through a converter if there is one. -/
structure Data where
  content : DataContent
  converter : Option Converter := none

namespace Data

/-- Data by value. -/
def forced (bytes : ByteArray) : Data := ⟨.forced bytes, none⟩

/-- Data by reference. -/
def references (refs : References) : Data := ⟨.references refs, none⟩

/-- The references of data by reference. -/
def references? (d : Data) : Option References :=
  match d.content with
  | .references refs => some refs
  | .forced _ => none

/-- The bytes before conversion. -/
def rawBytes (d : Data) (as : Artifacts) : Except ContractViolation ByteArray :=
  match d.content with
  | .forced bytes => .ok bytes
  | .references refs => refs.bytes as

/-- The bytes. -/
def bytes (d : Data) (as : Artifacts) : Except ContractViolation ByteArray := do
  let raw ← d.rawBytes as
  match d.converter with
  | some c => return c.apply raw
  | none => return raw

/-- The text of data: its bytes or references, and the name of the converter. -/
def text (d : Data) : String :=
  let content := match d.content with
    | .forced bytes => "bytes:" ++ Hex.encode bytes
    | .references refs => refs.text
  match d.converter with
  | some c => s!"{content} ({c.name})"
  | none => content

end Data

/-- The place of an action in a run: how many flows were switched to before, the step within the
flow and the action within the step. -/
structure Coordinates where
  flowIndex : Nat
  stepIndex : Nat
  actionIndex : Nat
  deriving DecidableEq, Repr, Inhabited

/-- The text of coordinates. -/
def Coordinates.text (c : Coordinates) : String :=
  s!"flow#{c.flowIndex}:step#{c.stepIndex}:action#{c.actionIndex}"

/-- The action behind a measurement: the text of its step, and its place. -/
structure Actor where
  step : String
  coords : Coordinates
  deriving DecidableEq, Repr, Inhabited

/-- The text of an actor. -/
def Actor.text (a : Actor) : String := s!"{a.step} @ {a.coords.text}"

/-- A record that data was measured into a trust chain. -/
structure MeasuredData where
  data : Data
  source : Option DataSource
  actor : Actor
  chain : TrustChain := .tpm

/-- The text of a record. -/
def MeasuredData.text (m : MeasuredData) : String :=
  match m.source with
  | some source => s!"[{m.chain.name}] {m.data.text} <- {source.text} by {m.actor.text}"
  | none => s!"[{m.chain.name}] {m.data.text} by {m.actor.text}"

namespace MeasuredData

/-- The references of all records, in order. -/
def allReferences (ms : List MeasuredData) : References :=
  ms.flatMap fun m => m.data.references?.getD []

/-- A numbered listing of records. -/
def listing (ms : List MeasuredData) : String := Text.numbered 4 (ms.map text)

end MeasuredData

end MeasuredBoot
