/-!
# Sharing out a search

A search tries the candidates of a shell, which are numbered from zero on, with several workers side
by side. `Workforce.workerCount` says how many, and `Workforce.pieces` cuts the numbers into a piece
for each of them. In which order the workers take their steps is not for the search to choose: an
order is given as a list of `Turn`s.
-/

namespace MeasuredBoot

/-- A step of one of the workers of a shell. -/
structure Turn where
  /-- The number of the worker. -/
  worker : Nat
  /-- Whether the worker notices that something was found, which it need not do at once. -/
  notices : Bool
  deriving DecidableEq, Repr

/-- How the work of a search is shared out. -/
structure Workforce where
  /-- The number of workers that can run side by side. -/
  processors : Nat := 1
  /-- How many of them are busy with something else while the shell of a distance is searched. -/
  busy : Nat → Nat := fun _ => 0
  /-- The largest number of workers to use; zero stands for no limit. -/
  maxWorkers : Nat := 0
  /-- The least number of candidates that is worth a worker; zero counts as one. -/
  minCandidates : Nat := 10000
  /-- The turns that the workers take first in the shell of a distance, in any order. After these,
  each worker in turn takes all steps that it has left. -/
  turns : Nat → List Turn := fun _ => []

namespace Workforce

/-- The number of workers for the shell of `distance`, which has `count` candidates. -/
def workerCount (force : Workforce) (distance count : Nat) : Nat :=
  let available := force.processors - force.busy distance
  let wanted := max (min available (count / max force.minCandidates 1)) 1
  if 0 < force.maxWorkers then min wanted force.maxWorkers else wanted

/-- The first number and the end of each worker's piece of a shell. The pieces have equal sizes,
except that the last one takes the rest as well. -/
def pieces (count workers : Nat) : List (Nat × Nat) :=
  let size := count / workers
  (List.range workers).map fun i =>
    (i * size, if i + 1 = workers then count else (i + 1) * size)

/-- There is always someone to do the work. -/
theorem workerCount_pos (force : Workforce) (distance count : Nat) :
    0 < force.workerCount distance count := by
  simp only [workerCount]
  split <;> omega

end Workforce

end MeasuredBoot
