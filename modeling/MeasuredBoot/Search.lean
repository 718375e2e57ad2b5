import MeasuredBoot.Search.Worker

/-!
# Searching for flipped bits

`Search.run` looks for the fewest bits to flip so that a byte string passes a check. It looks at the
byte string itself first, then at all combinations of one bit, of two bits and so on. Each shell is
searched by the workers that its size is worth.

A worker that gets no context is never passed over: the search fails, even if another worker of the
shell found something, since a part of the shell was not looked at.
-/

namespace MeasuredBoot

/-- Why a search failed. -/
inductive SearchError where
  /-- The combinations of a distance are too many to be numbered. -/
  | tooManyCombinations (bits distance : Nat)
  /-- There was no context to look at the byte string itself. -/
  | init (reason : String)
  /-- Some workers of a shell got no context. -/
  | workers (distance : Nat) (reasons : List String)
  deriving DecidableEq, Repr

/-- The name of the kind of a failure. -/
def SearchError.kind : SearchError → String
  | .tooManyCombinations .. => "BruteForce.TooManyCombinations"
  | .init _ => "BruteForce.Init"
  | .workers .. => "BruteForce.Workers"

/-- The text of a failure. -/
def SearchError.message : SearchError → String
  | .tooManyCombinations bits distance =>
    s!"Distance {distance} is too high: C({bits}, {distance}) combinations overflow the " ++
      "combination id space"
  | .init reason => "Brute forcer init failed: " ++ reason
  | .workers distance reasons =>
    s!"Workers failed at distance {distance}: " ++ String.intercalate "; " reasons

/-- The number of combinations of a distance, which has to be small enough to number them. -/
def shellSize (bits distance : Nat) : Except SearchError Nat :=
  match shellSize? bits distance with
  | some count => .ok count
  | none => .error (.tooManyCombinations bits distance)

/-- What a search did. -/
structure SearchReport (σ : Type) where
  outcome : Except SearchError (Option Combination)
  /-- The number of contexts that were asked for. -/
  inits : Nat
  /-- The contexts that were made, as the checks left them. -/
  contexts : List σ

namespace Search

variable {σ : Type}

/-- The number of bits that can be flipped. -/
def bits (s : Search σ) : Nat := Bytes.bitCount s.initial

/-- The reason that is given when a worker gets no context. -/
def pieceFailure (piece : Nat × Nat) (reason : String) : String :=
  s!"init failed for combination ids {piece.1}..{piece.2}: {reason}"

/-- The workers of a shell, where `inits` contexts were asked for before, and the reasons of those
that got none. -/
def hire (s : Search σ) (distance inits : Nat) : List (Nat × Nat) → List (Worker σ) × List String
  | [] => ([], [])
  | piece :: rest =>
    let (workers, reasons) := s.hire distance (inits + 1) rest
    match s.init inits with
    | .ok context => (Worker.ofIds s context distance piece.1 piece.2 :: workers, reasons)
    | .error reason => (workers, pieceFailure piece reason :: reasons)

/-- Searches `left` more shells, the next of which has `distance`. -/
def runShells (s : Search σ) (distance inits : Nat) (contexts : List σ) :
    (left : Nat) → SearchReport σ
  | 0 => ⟨.ok none, inits, contexts⟩
  | left + 1 =>
    match shellSize s.bits distance with
    | .error e => ⟨.error e, inits, contexts⟩
    | .ok count =>
      let shares := Workforce.pieces count (s.workerCount distance count)
      let (workers, reasons) := s.hire distance inits shares
      let shell := Shell.run s (s.turns distance) { workers }
      let inits := inits + shares.length
      let contexts := contexts ++ shell.workers.map (·.context)
      match reasons, shell.found with
      | _ :: _, _ => ⟨.error (.workers distance reasons), inits, contexts⟩
      | [], some found => ⟨.ok (some found), inits, contexts⟩
      | [], none => s.runShells (distance + 1) inits contexts left

/-- Searches up to `maxDistance` flipped bits. -/
def run (s : Search σ) (maxDistance : Nat) : SearchReport σ :=
  match s.init 0 with
  | .error reason => ⟨.error (.init reason), 1, []⟩
  | .ok context =>
    match s.check context s.initial with
    | (true, context) => ⟨.ok (some []), 1, [context]⟩
    | (false, context) => s.runShells 1 1 [context] (min maxDistance s.bits)

end Search

end MeasuredBoot
