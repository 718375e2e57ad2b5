/-!
# Command line arguments

`Arguments.read` tells options, flags and positional arguments apart. Options and flags start with
two hyphens. The value of an option follows behind an equals sign or is the next argument, which
must not start with a hyphen then. Everything behind a lone `--` is positional.
-/

namespace MeasuredBoot

/-- An argument. -/
inductive Argument where
  | positional (value : String)
  | option (name value : String)
  | flag (name : String)
  /-- A request for help. -/
  | help
  /-- Something that is no argument of the command. -/
  | unknown (text : String)
  deriving DecidableEq, Repr

/-- The names of the arguments of a command that start with two hyphens. -/
structure ArgumentNames where
  /-- Those with a value. -/
  options : List String
  /-- Those without a value. -/
  flags : List String

namespace Arguments

/-- Whether an argument cannot be the value of an option that stands before it. -/
def isHyphenated (text : String) : Bool :=
  match text.toList with
  | '-' :: _ :: _ => true
  | _ => false

/-- The name and the value, if there is one, of an argument without its hyphens. -/
def splitValue (text : List Char) : String × Option String :=
  let name := text.takeWhile (· ≠ '=')
  match text.drop name.length with
  | _ :: value => (String.ofList name, some (String.ofList value))
  | [] => (String.ofList name, none)

/-- An argument that is not the name of an option with its value behind it. -/
def single (names : ArgumentNames) (text : String) : Argument :=
  match text.toList with
  | '-' :: '-' :: rest =>
    match splitValue rest with
    | (name, some value) =>
      if names.options.contains name then .option name value else .unknown text
    | (name, none) =>
      if name = "help" then .help
      else if names.flags.contains name then .flag name
      else .unknown text
  | '-' :: 'h' :: _ => .help
  | '-' :: _ :: _ => .unknown text
  | _ => .positional text

/-- The name of an option whose value has to be the next argument. -/
def pendingOption? (names : ArgumentNames) (text : String) : Option String :=
  names.options.find? fun name => text == "--" ++ name

/-- Tells arguments apart. -/
def read (names : ArgumentNames) : List String → List Argument
  | [] => []
  | [text] => if text = "--" then [] else
    if (pendingOption? names text).isSome then [.unknown text] else [single names text]
  | text :: next :: rest =>
    if text = "--" then .positional next :: rest.map .positional
    else
      match pendingOption? names text with
      | some name =>
        if isHyphenated next then .unknown text :: read names (next :: rest)
        else .option name next :: read names rest
      | none => single names text :: read names (next :: rest)

end Arguments

/-- What reading the arguments of a command leads to. -/
inductive Invocation (α : Type) where
  /-- The command is to be carried out. -/
  | run (options : α)
  /-- Help was asked for. -/
  | help
  /-- The arguments are no use of the command. -/
  | misuse

/-- Takes arguments into account one after the other, up to a request for help. -/
def Invocation.ofArguments {α : Type} (put : α → Argument → Option α) (options : α) :
    List Argument → Invocation α
  | [] => .run options
  | .help :: _ => .help
  | argument :: rest =>
    match put options argument with
    | some next => ofArguments put next rest
    | none => .misuse

/-- Reads a natural number below a bound: digits, perhaps behind a plus sign. -/
def readNumber? (bound : Nat) (text : String) : Option Nat :=
  let digits := match text.toList with
    | '+' :: digits => digits
    | digits => digits
  if digits.isEmpty || digits.any (!·.isDigit) then none
  else
    let n := digits.foldl (fun n c => 10 * n + (c.toNat - 48)) 0
    if n < bound then some n else none

/-- Why a command failed. -/
structure Complaint where
  message : String
  /-- What lies behind the message, the nearest cause first. -/
  causes : List String := []
  deriving DecidableEq, Repr

/-- The line for a complaint. -/
def Complaint.text (c : Complaint) : String :=
  "error: " ++ String.intercalate ": " (c.message :: c.causes)

/-- What a command leaves behind. -/
structure Completion where
  /-- Zero for success. -/
  code : UInt8
  output : String := ""
  complaint : Option Complaint := none
  deriving DecidableEq, Repr

/-- The end of a command that failed. -/
def Completion.failure (complaint : Complaint) (output : String) : Completion :=
  ⟨1, output, some complaint⟩

end MeasuredBoot
