import MeasuredBoot.Combination.Cursor
import MeasuredBoot.Search.Workforce

/-!
# Workers of a search

A search looks for bits to flip so that a byte string passes a check. The combinations of one size
make a shell, and the numbers of a shell are shared out among workers.

* `Worker.examine`: one worker looks at one candidate;
* `Shell.step`: one worker of a shell takes a step, whatever the others do meanwhile;
* `Shell.run`: the workers take all their steps, in an order that starts with given turns.
-/

namespace MeasuredBoot

/-- What to search for, and who does it. A worker has a context of type `σ` of its own, which the
check can use and change. -/
structure Search (σ : Type) extends Workforce where
  /-- The byte string that bits are flipped of. -/
  initial : ByteArray
  /-- The context that is made by a call, by the number of calls before it. -/
  init : Nat → Except String σ
  /-- Whether a candidate is accepted, and the context afterwards. -/
  check : σ → ByteArray → Bool × σ

/-- A worker. -/
structure Worker (σ : Type) where
  context : σ
  /-- The byte string that the worker flips bits of. -/
  data : ByteArray
  cursor : Cursor
  /-- The number of candidates that are left. -/
  remaining : Nat

namespace Worker

/-- A worker for the combinations of `distance` bits numbered from `start` up to, and without,
`stop`. -/
def ofIds {σ : Type} (s : Search σ) (context : σ) (distance start stop : Nat) : Worker σ where
  context := context
  data := s.initial
  cursor := (Cursor.first distance (Bytes.bitCount s.initial)).seek start
  remaining := stop - start

/-- Looks at the candidate of the cursor. Unless it is accepted, the flips are undone and the cursor
moves on. -/
def examine {σ : Type} (s : Search σ) (w : Worker σ) : Worker σ × Bool :=
  let candidate := w.cursor.flip w.data
  match s.check w.context candidate with
  | (true, context) => ({ w with context, data := candidate, remaining := 0 }, true)
  | (false, context) =>
    ({ context
       data := w.cursor.flip candidate
       cursor := w.cursor.advance
       remaining := w.remaining - 1 }, false)

/-- The worker without anything left to do. -/
def stop {σ : Type} (w : Worker σ) : Worker σ := { w with remaining := 0 }

end Worker

/-- The workers of a shell and the first combination that one of them found. -/
structure Shell (σ : Type) where
  workers : List (Worker σ)
  found : Option Combination := none

namespace Shell

variable {σ : Type}

/-- The number of candidates that worker `i` has left. -/
def remaining (shell : Shell σ) (i : Nat) : Nat :=
  match shell.workers[i]? with
  | some w => w.remaining
  | none => 0

/-- A worker takes a step: it stops if it notices that something was found, and looks at a candidate
otherwise. A worker without candidates does nothing. -/
def step (s : Search σ) (shell : Shell σ) (turn : Turn) : Shell σ :=
  match shell.workers[turn.worker]? with
  | none => shell
  | some w =>
    if w.remaining = 0 then shell
    else if turn.notices && shell.found.isSome then
      { shell with workers := shell.workers.set turn.worker w.stop }
    else
      match w.examine s with
      | (after, accepted) =>
        { workers := shell.workers.set turn.worker after
          found := if accepted then shell.found.or (some w.cursor.current) else shell.found }

theorem remaining_examine_lt (s : Search σ) {w : Worker σ} (h : w.remaining ≠ 0) :
    (w.examine s).1.remaining < w.remaining := by
  simp only [Worker.examine]
  split <;> dsimp only <;> omega

theorem remaining_step_lt (s : Search σ) {shell : Shell σ} (turn : Turn)
    (h : shell.remaining turn.worker ≠ 0) :
    (shell.step s turn).remaining turn.worker < shell.remaining turn.worker := by
  unfold remaining at h
  split at h
  case h_2 => contradiction
  rename_i w hw
  have hi : turn.worker < shell.workers.length := (List.getElem?_eq_some_iff.1 hw).1
  have old : shell.remaining turn.worker = w.remaining := by rw [remaining, hw]
  rw [old, step, hw]
  simp only [if_neg h]
  split
  · simp only [remaining, List.getElem?_set_self hi, Worker.stop]
    omega
  · simp only [remaining, List.getElem?_set_self hi]
    exact remaining_examine_lt s h

/-- Worker `i` takes all its steps. -/
def settle (s : Search σ) (shell : Shell σ) (i : Nat) : Shell σ :=
  if _ : shell.remaining i = 0 then shell else settle s (shell.step s ⟨i, true⟩) i
termination_by shell.remaining i
decreasing_by exact remaining_step_lt s ⟨i, true⟩ ‹_›

/-- The workers take some turns, and then all steps that are left, one worker after the other. -/
def run (s : Search σ) (turns : List Turn) (shell : Shell σ) : Shell σ :=
  (List.range shell.workers.length).foldl (settle s) (turns.foldl (step s) shell)

end Shell

end MeasuredBoot
