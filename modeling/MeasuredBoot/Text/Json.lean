import MeasuredBoot.Text.Hex
import MeasuredBoot.Text.Layout

/-!
# JSON text

`Json` is what reports are made of before they are written, `Json.pretty` writes it with one member
or element on a line.
-/

namespace MeasuredBoot

/-- A JSON value without fractions. -/
inductive Json where
  | null
  | number (n : Nat)
  | string (s : String)
  | array (elements : List Json)
  | object (members : List (String × Json))

namespace Json

/-- A string, or null. -/
def string? : Option String → Json
  | some s => .string s
  | none => .null

/-- An array of strings. -/
def strings (ss : List String) : Json := .array (ss.map .string)

/-- A character within a quoted string. -/
def escape (c : Char) : String :=
  match c with
  | '"' => "\\\""
  | '\\' => "\\\\"
  | '\x08' => "\\b"
  | '\x0c' => "\\f"
  | '\n' => "\\n"
  | '\x0d' => "\\r"
  | '\t' => "\\t"
  | _ => if c.toNat < 32 then "\\u" ++ Text.zeroPadded 4 (Hex.lower c.toNat) else c.toString

/-- A quoted string. -/
def quote (s : String) : String := "\"" ++ String.join (s.toList.map escape) ++ "\""

/-- The start of a line at a depth. -/
def margin (depth : Nat) : String := String.ofList (List.replicate (2 * depth) ' ')

/-- Items between brackets, each on a line of its own; nothing stands between them without items. -/
def bracketed (depth : Nat) (opening closing : String) (items : List String) : String :=
  if items.isEmpty then opening ++ closing
  else
    let lines := items.map (margin (depth + 1) ++ ·)
    s!"{opening}\n" ++ String.intercalate ",\n" lines ++ s!"\n{margin depth}{closing}"

mutual

/-- Writes a value whose first line starts within a line of some depth. -/
def prettyAt (depth : Nat) : Json → String
  | .null => "null"
  | .number n => toString n
  | .string s => quote s
  | .array elements => bracketed depth "[" "]" (prettyElements (depth + 1) elements)
  | .object members => bracketed depth "\x7b" "\x7d" (prettyMembers (depth + 1) members)

/-- Writes the elements of an array. -/
def prettyElements (depth : Nat) : List Json → List String
  | [] => []
  | element :: rest => prettyAt depth element :: prettyElements depth rest

/-- Writes the members of an object. -/
def prettyMembers (depth : Nat) : List (String × Json) → List String
  | [] => []
  | (name, value) :: rest =>
    (quote name ++ ": " ++ prettyAt depth value) :: prettyMembers depth rest

end

/-- Writes a value. -/
def pretty (j : Json) : String := prettyAt 0 j

end Json

end MeasuredBoot
