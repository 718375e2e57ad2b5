import MeasuredBoot.CommandLine.Arguments
import MeasuredBoot.Machine
import MeasuredBoot.Register.Snapshot

/-!
# Input files of commands

A file that was asked for is its content or the reason why it cannot be read. Commands turn the
content into artifacts here.
-/

namespace MeasuredBoot

/-- A file that was asked for. -/
structure InputFile where
  path : String
  content : Except String ByteArray

namespace InputFile

/-- The content of a file as a firmware image. -/
def image (file : InputFile) : Except Complaint BiosImage :=
  let failed (cause : String) : Complaint :=
    ⟨"failed to read firmware from " ++ file.path, [cause]⟩
  match file.content with
  | .error cause => .error (failed cause)
  | .ok bytes =>
    match BiosImage.ofBytes? bytes with
    | some image => .ok image
    | none => .error (failed "file too large")

/-- The content of a file as text. -/
def text (file : InputFile) : Except String String := do
  match String.fromUTF8? (← file.content) with
  | some text => return text
  | none => throw "stream did not contain valid UTF-8"

/-- The content of a file as a register snapshot. -/
def registers (file : InputFile) : Except Complaint Registers :=
  match file.text with
  | .error cause => .error ⟨"failed to read registers from " ++ file.path, [cause]⟩
  | .ok text =>
    match Registers.ofText? text with
    | some snapshot => .ok snapshot
    | none =>
      .error ⟨"invalid register snapshot in " ++ file.path,
        ["expected an object of register values"]⟩

end InputFile

end MeasuredBoot
