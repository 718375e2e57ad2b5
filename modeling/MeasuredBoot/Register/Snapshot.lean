import MeasuredBoot.Register

/-!
# Register snapshots as text

A snapshot is written as a JSON object with a member for each register that is present, whose value
is a number (`Registers.toText`). It is read from any such object (`Registers.ofText?`): members can
come in any order and the last one of a register counts, but all of them have to be registers by
their exact names with natural numbers below `2 ^ 64`.

Reading takes two stages: `Snapshot.tokens?` cuts the text into tokens, `Snapshot.members?` puts
them together.
-/

namespace MeasuredBoot

namespace Snapshot

/-- A token of a snapshot. -/
inductive Token where
  | openBrace
  | closeBrace
  | colon
  | comma
  | name (text : String)
  | number (value : Nat)
  deriving DecidableEq, Repr

/-- What a scanner is in the middle of. -/
inductive Mode where
  /-- Nothing: a token can start. -/
  | between
  | name (text : String)
  /-- A backslash within a name was read. -/
  | escape (text : String)
  /-- An escape by number within a name, of which `missing` digits are to come. -/
  | code (text : String) (value missing : Nat)
  | number (value : Nat)
  deriving DecidableEq, Repr

/-- A scanner: the tokens so far, and what it is in the middle of. -/
structure Scanner where
  tokens : List Token := []
  mode : Mode := .between
  deriving DecidableEq, Repr

/-- The character that a one-letter escape stands for. -/
def escaped? : Char → Option Char
  | '"' => some '"'
  | '\\' => some '\\'
  | '/' => some '/'
  | 'b' => some '\x08'
  | 'f' => some '\x0c'
  | 'n' => some '\n'
  | 'r' => some '\x0d'
  | 't' => some '\t'
  | _ => none

/-- The value of a hexadecimal digit of either case. -/
def hexDigit? (c : Char) : Option Nat := (Hex.value? c).map UInt8.toNat

namespace Scanner

/-- Reads a character outside names and numbers. -/
def start (tokens : List Token) (c : Char) : Option Scanner :=
  match c with
  | ' ' | '\n' | '\x0d' | '\t' => some ⟨tokens, .between⟩
  | '\x7b' => some ⟨tokens ++ [.openBrace], .between⟩
  | '\x7d' => some ⟨tokens ++ [.closeBrace], .between⟩
  | ':' => some ⟨tokens ++ [.colon], .between⟩
  | ',' => some ⟨tokens ++ [.comma], .between⟩
  | '"' => some ⟨tokens, .name ""⟩
  | _ => if c.isDigit then some ⟨tokens, .number (c.toNat - 48)⟩ else none

/-- Reads a character. A digit cannot follow a zero that a number starts with. -/
def step (s : Scanner) (c : Char) : Option Scanner :=
  match s.mode with
  | .between => start s.tokens c
  | .name text =>
    if c = '"' then some ⟨s.tokens ++ [.name text], .between⟩
    else if c = '\\' then some ⟨s.tokens, .escape text⟩
    else if c.toNat < 32 then none
    else some ⟨s.tokens, .name (text.push c)⟩
  | .escape text =>
    if c = 'u' then some ⟨s.tokens, .code text 0 4⟩
    else (escaped? c).map fun e => ⟨s.tokens, .name (text.push e)⟩
  | .code text value missing =>
    (hexDigit? c).map fun d =>
      if missing = 1 then ⟨s.tokens, .name (text.push (Char.ofNat (16 * value + d)))⟩
      else ⟨s.tokens, .code text (16 * value + d) (missing - 1)⟩
  | .number value =>
    if c.isDigit then
      if value = 0 then none else some ⟨s.tokens, .number (10 * value + (c.toNat - 48))⟩
    else start (s.tokens ++ [.number value]) c

/-- The tokens of a text that was read to its end. -/
def tokens? (s : Scanner) : Option (List Token) :=
  match s.mode with
  | .between => some s.tokens
  | .number value => some (s.tokens ++ [.number value])
  | .name _ | .escape _ | .code .. => none

end Scanner

/-- The tokens of a text. An escape for half of a surrogate pair gives a character that occurs in no
name of a register. -/
def tokens? (text : String) : Option (List Token) :=
  (text.toList.foldlM Scanner.step {}).bind Scanner.tokens?

/-- The snapshot with a member put in. -/
def put? (snapshot : Registers) (name : String) (value : Nat) : Option Registers :=
  if value < UInt64.size then (Register.ofName? name).map fun id => snapshot.put id value.toUInt64
  else none

/-- Puts members into a snapshot, up to the closing brace. -/
def members? (snapshot : Registers) : List Token → Option Registers
  | [.name name, .colon, .number value, .closeBrace] => put? snapshot name value
  | .name name :: .colon :: .number value :: .comma :: rest => do
    members? (← put? snapshot name value) rest
  | _ => none

end Snapshot

namespace Registers

/-- Reads a snapshot. -/
def ofText? (text : String) : Option Registers := do
  match ← Snapshot.tokens? text with
  | [.openBrace, .closeBrace] => return {}
  | .openBrace :: rest => Snapshot.members? {} rest
  | _ => none

/-- Writes a snapshot, without blanks and in the order of the slots. -/
def toText (snapshot : Registers) : String :=
  let members := snapshot.toList.map fun (id, value) => s!"\"{id.name}\":{value.toNat}"
  let body := String.intercalate "," members
  s!"\x7b{body}\x7d"

end Registers

end MeasuredBoot
