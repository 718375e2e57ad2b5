import MeasuredBoot.Search
import MeasuredBoot.Proofs.Bytes.Hamming
import MeasuredBoot.Proofs.Combination.Stepping

/-!
# The workers of a shell

What holds of the workers of a shell in every order of their steps. A worker that is not done stands
at a number of its piece (`Worker.StandsAt`), all candidates before it were rejected
(`Worker.Covers`), and a combination that was found is the first one of a piece that is accepted
(`Shell.Inv`). Only a worker that found something, or stopped because another one did, is done early.

* `Shell.step_cases`: all that a step of a worker can do;
* `Worker.examine_spec`: what looking at one candidate does;
* `Shell.Inv.step`: every step of every worker keeps the invariant;
* `Shell.remaining_run`: after a run nothing is left to do;
* `Shell.Inv.rejected`: a shell that is done and found nothing overlooked nothing;
* `Workforce.exists_piece`, `Search.hire_spec`: every candidate is in the piece of some worker;
* `Search.snd_hire`, `Search.mem_failing_iff`: the messages of the workers that get no context.
-/

namespace MeasuredBoot

open Combination (unrank)

variable {σ : Type}

/-- The candidate with a number in the shell of a distance. -/
def Search.candidate (s : Search σ) (distance id : Nat) : ByteArray :=
  Bytes.flipBits (unrank id distance s.bits) s.initial

/-- Whether a check goes by the candidate only, in the way of `accepts`. -/
def Search.ChecksBy (s : Search σ) (accepts : ByteArray → Bool) : Prop :=
  ∀ context data, (s.check context data).1 = accepts data

/-! ## Steps of a shell -/

namespace Shell

/-- All that a step can do: nothing, or one worker that is not done stops, or looks at a candidate. -/
theorem step_cases (s : Search σ) (shell : Shell σ) (turn : Turn) :
    shell.step s turn = shell ∨
    ∃ w, shell.workers[turn.worker]? = some w ∧ w.remaining ≠ 0 ∧
      (shell.found.isSome = true ∧
        shell.step s turn = { shell with workers := shell.workers.set turn.worker w.stop } ∨
      shell.step s turn =
        { workers := shell.workers.set turn.worker (w.examine s).1
          found := if (w.examine s).2 then shell.found.or (some w.cursor.current) else shell.found }) := by
  rw [step]
  split
  · exact .inl rfl
  rename_i w hw
  split
  · exact .inl rfl
  rename_i hrest
  refine .inr ⟨w, hw, hrest, ?_⟩
  split
  · rename_i hnotice
    exact .inl ⟨(Bool.and_eq_true_iff.mp hnotice).2, rfl⟩
  · exact .inr rfl

@[simp] theorem length_step (s : Search σ) (shell : Shell σ) (turn : Turn) :
    (shell.step s turn).workers.length = shell.workers.length := by
  obtain hsame | ⟨w, -, -, ⟨-, hstep⟩ | hstep⟩ := shell.step_cases s turn
  · rw [hsame]
  · rw [hstep]
    exact List.length_set
  · rw [hstep]
    exact List.length_set

theorem remaining_step_of_ne (s : Search σ) (shell : Shell σ) {turn : Turn} {i : Nat}
    (h : turn.worker ≠ i) : (shell.step s turn).remaining i = shell.remaining i := by
  obtain hsame | ⟨w, -, -, ⟨-, hstep⟩ | hstep⟩ := shell.step_cases s turn
  · rw [hsame]
  · simp only [hstep, remaining, List.getElem?_set_ne h]
  · simp only [hstep, remaining, List.getElem?_set_ne h]

/-- What every step keeps, a run keeps. -/
theorem run_induction {P : Shell σ → Prop} (s : Search σ)
    (hstep : ∀ shell turn, P shell → P (shell.step s turn)) (turns : List Turn) {shell : Shell σ}
    (h : P shell) : P (shell.run s turns) := by
  have hsettle : ∀ (shell : Shell σ) i, P shell → P (shell.settle s i) := fun shell i h => by
    induction shell using settle.induct s i with
    | case1 shell hz => rwa [settle, dif_pos hz]
    | case2 shell hz ih =>
      rw [settle, dif_neg hz]
      exact ih (hstep shell _ h)
  rw [run]
  have hturns := List.foldlRecOn turns (step s) h fun shell hs turn _ => hstep shell turn hs
  exact List.foldlRecOn _ (settle s) hturns fun shell hs i _ => hsettle shell i hs

theorem remaining_settle (s : Search σ) (shell : Shell σ) (i : Nat) :
    (shell.settle s i).remaining i = 0 := by
  induction shell using settle.induct s i with
  | case1 shell hz => rwa [settle, dif_pos hz]
  | case2 shell hz ih => rwa [settle, dif_neg hz]

theorem remaining_settle_of_ne (s : Search σ) (shell : Shell σ) {i j : Nat} (h : i ≠ j) :
    (shell.settle s i).remaining j = shell.remaining j := by
  induction shell using settle.induct s i with
  | case1 shell hz => rw [settle, dif_pos hz]
  | case2 shell hz ih => rw [settle, dif_neg hz, ih, remaining_step_of_ne s shell h]

/-- After a run nothing is left to do. -/
theorem remaining_run (s : Search σ) (turns : List Turn) (shell : Shell σ) (i : Nat) :
    (shell.run s turns).remaining i = 0 := by
  have hlen : (shell.run s turns).workers.length = shell.workers.length :=
    run_induction (P := fun other => other.workers.length = shell.workers.length) s
      (fun other turn h => (length_step s other turn).trans h) turns rfl
  rcases Nat.lt_or_ge i shell.workers.length with hi | hi
  · have hfold : ∀ (is : List Nat) (other : Shell σ), i ∈ is ∨ other.remaining i = 0 →
        (is.foldl (settle s) other).remaining i = 0 := fun is => by
      induction is with
      | nil => exact fun other h => h.resolve_left nofun
      | cons j is ih =>
        intro other h
        refine ih _ ?_
        by_cases hj : j = i
        · exact .inr (hj ▸ remaining_settle s other j)
        · rw [remaining_settle_of_ne s other hj]
          exact h.imp_left fun hm => (List.mem_cons.mp hm).resolve_left (Ne.symm hj)
    rw [run]
    exact hfold _ _ (.inl (List.mem_range.mpr hi))
  · rw [remaining, List.getElem?_eq_none (by omega)]

end Shell

/-! ## A worker and its piece -/

namespace Worker

/-- The worker looks next at candidate `next`, and stops before `stop`. -/
structure StandsAt (s : Search σ) (distance next stop : Nat) (w : Worker σ) : Prop where
  data_eq : w.data = s.initial
  cursor_eq : next < stop → w.cursor = ⟨s.bits, unrank next distance s.bits⟩
  remaining_eq : w.remaining = stop - next

theorem standsAt_ofIds (s : Search σ) (context : σ) (distance start stop : Nat) :
    (ofIds s context distance start stop).StandsAt s distance start stop :=
  ⟨rfl, fun _ => Cursor.seek_first .., rfl⟩

/-- Flips of a combination of the shell are undone by flipping again. -/
theorem flip_candidate {s : Search σ} {distance id : Nat} (hfit : ProductsFit s.bits distance)
    (hid : id < s.bits.choose distance) :
    Bytes.flipBits (unrank id distance s.bits) (s.candidate distance id) = s.initial :=
  Bytes.flipBits_flipBits (Combination.unrank_spec hfit hid).1.below

/-- A worker looks at the candidate that it stands at. It is done if that is accepted, and stands at
the next one, with the byte string restored, otherwise. -/
theorem examine_spec {s : Search σ} {accepts : ByteArray → Bool} (hcheck : s.ChecksBy accepts)
    {distance next stop : Nat} (hfit : ProductsFit s.bits distance)
    (hstop : stop ≤ s.bits.choose distance) {w : Worker σ} (hw : w.StandsAt s distance next stop)
    (hnext : next < stop) :
    (w.examine s).2 = accepts (s.candidate distance next) ∧
      (accepts (s.candidate distance next) = true → (w.examine s).1.remaining = 0) ∧
      (accepts (s.candidate distance next) = false →
        (w.examine s).1.StandsAt s distance (next + 1) stop) := by
  have hcand : w.cursor.flip w.data = s.candidate distance next := by
    rw [hw.data_eq, hw.cursor_eq hnext]
    rfl
  have haccept := hcheck w.context (s.candidate distance next)
  simp only [examine, hcand]
  split
  · rename_i context hc
    rw [hc] at haccept
    exact ⟨haccept, fun _ => rfl, fun hr => absurd (hr.symm.trans haccept.symm) Bool.false_ne_true⟩
  · rename_i context hc
    rw [hc] at haccept
    refine ⟨haccept, fun hr => absurd (haccept.trans hr) Bool.false_ne_true,
      fun _ => ⟨?_, fun hlt => ?_, ?_⟩⟩
    · rw [hw.cursor_eq hnext]
      exact flip_candidate hfit (by omega)
    · rw [hw.cursor_eq hnext]
      exact Cursor.advance_unrank hfit (by omega)
    · show w.remaining - 1 = stop - (next + 1)
      rw [hw.remaining_eq]
      omega

/-- The worker is done because something was found, or stands at a number of its piece with all
candidates before it rejected. -/
def Covers (s : Search σ) (accepts : ByteArray → Bool) (distance : Nat) (found : Bool)
    (piece : Nat × Nat) (w : Worker σ) : Prop :=
  (found = true ∧ w.remaining = 0) ∨
    ∃ next, piece.1 ≤ next ∧ w.StandsAt s distance next piece.2 ∧
      ∀ id, piece.1 ≤ id → id < next → accepts (s.candidate distance id) = false

theorem Covers.mono {s : Search σ} {accepts : ByteArray → Bool} {distance : Nat} {found found' : Bool}
    {piece : Nat × Nat} {w : Worker σ} (h : w.Covers s accepts distance found piece)
    (hf : found = true → found' = true) : w.Covers s accepts distance found' piece :=
  h.imp_left fun ⟨hfound, hr⟩ => ⟨hf hfound, hr⟩

end Worker

/-! ## The invariant of a shell -/

namespace Shell

/-- The combination is that of the first accepted candidate of the piece. -/
def FirstOf (s : Search σ) (accepts : ByteArray → Bool) (distance : Nat) (piece : Nat × Nat)
    (c : Combination) : Prop :=
  ∃ id, piece.1 ≤ id ∧ id < piece.2 ∧ c = unrank id distance s.bits ∧
    accepts (s.candidate distance id) = true ∧
    ∀ before, piece.1 ≤ before → before < id → accepts (s.candidate distance before) = false

/-- Each worker covers its piece, and what was found is the first match of a piece. -/
structure Inv (s : Search σ) (accepts : ByteArray → Bool) (distance : Nat)
    (pieces : List (Nat × Nat)) (shell : Shell σ) : Prop where
  length_eq : shell.workers.length = pieces.length
  covers : ∀ (i : Nat) (w : Worker σ) (piece : Nat × Nat),
    shell.workers[i]? = some w → pieces[i]? = some piece →
    w.Covers s accepts distance shell.found.isSome piece
  first : ∀ c, shell.found = some c → ∃ piece ∈ pieces, FirstOf s accepts distance piece c

namespace Inv

variable {s : Search σ} {accepts : ByteArray → Bool} {distance : Nat} {pieces : List (Nat × Nat)}
  {shell : Shell σ}

/-- Replacing a worker, and perhaps adding what it found, keeps the invariant if the new worker
covers the piece of the old one. -/
theorem set (h : shell.Inv s accepts distance pieces) {i : Nat} {w : Worker σ}
    {found : Option Combination}
    (hw : ∀ piece, pieces[i]? = some piece → w.Covers s accepts distance found.isSome piece)
    (hfound : shell.found.isSome = true → found = shell.found)
    (hfirst : ∀ c, found = some c → ∃ piece ∈ pieces, FirstOf s accepts distance piece c) :
    Inv s accepts distance pieces { workers := shell.workers.set i w, found } where
  length_eq := List.length_set.trans h.length_eq
  covers j v piece hv hp := by
    by_cases hj : i = j
    · subst hj
      have hi : i < shell.workers.length := by
        rw [h.length_eq]
        exact (List.getElem?_eq_some_iff.mp hp).1
      obtain rfl : w = v := Option.some.inj ((List.getElem?_set_self hi).symm.trans hv)
      exact hw piece hp
    · rw [List.getElem?_set_ne hj] at hv
      refine (h.covers j v piece hv hp).mono fun hf => ?_
      rw [hfound hf, hf]
  first := hfirst

/-- Every step of every worker keeps the invariant. -/
theorem step (hcheck : s.ChecksBy accepts) (hfit : ProductsFit s.bits distance)
    (hstop : ∀ piece ∈ pieces, piece.2 ≤ s.bits.choose distance)
    (h : shell.Inv s accepts distance pieces) (turn : Turn) :
    (shell.step s turn).Inv s accepts distance pieces := by
  obtain hsame | ⟨w, hw, hrem, ⟨hfound, hstep⟩ | hstep⟩ := shell.step_cases s turn
  · rw [hsame]
    exact h
  · rw [hstep]
    exact h.set (fun _ _ => .inl ⟨hfound, rfl⟩) (fun _ => rfl) h.first
  rw [hstep]
  -- The worker is not done, so that it stands at a candidate of its piece.
  obtain ⟨piece, hp⟩ : ∃ piece, pieces[turn.worker]? = some piece := by
    have hi := (List.getElem?_eq_some_iff.mp hw).1
    rw [h.length_eq] at hi
    exact ⟨_, List.getElem?_eq_getElem hi⟩
  have hmem := List.mem_of_getElem? hp
  obtain ⟨-, hz⟩ | ⟨next, hle, hstands, hbefore⟩ := h.covers _ w piece hw hp
  · exact absurd hz hrem
  have hnext : next < piece.2 := by
    have := hstands.remaining_eq
    omega
  obtain ⟨heq, hyes, hno⟩ := Worker.examine_spec hcheck hfit (hstop piece hmem) hstands hnext
  have hpiece {other : Nat × Nat} (ho : pieces[turn.worker]? = some other) : other = piece :=
    Option.some.inj (ho.symm.trans hp)
  rw [heq]
  cases haccept : accepts (s.candidate distance next) with
  | true =>
    rw [if_pos rfl]
    refine h.set (fun other ho => ?_) (fun hf => ?_) fun c hc => ?_
    · rw [Option.isSome_or, Option.isSome_some, Bool.or_true]
      exact .inl ⟨rfl, hyes haccept⟩
    · obtain ⟨c, hc⟩ := Option.isSome_iff_exists.mp hf
      rw [hc, Option.some_or]
    · cases hold : shell.found with
      | some old =>
        rw [hold, Option.some_or] at hc
        exact h.first c (hold.trans hc)
      | none =>
        rw [hold, Option.none_or, hstands.cursor_eq hnext] at hc
        exact ⟨piece, hmem, next, hle, hnext, (Option.some.inj hc).symm, haccept, hbefore⟩
  | false =>
    rw [if_neg Bool.false_ne_true]
    refine h.set (fun other ho => ?_) (fun _ => rfl) h.first
    obtain rfl := hpiece ho
    refine .inr ⟨next + 1, Nat.le_succ_of_le hle, hno haccept, fun id h₁ h₂ => ?_⟩
    rcases Nat.lt_succ_iff_lt_or_eq.mp h₂ with h₂ | rfl
    · exact hbefore id h₁ h₂
    · exact haccept

end Inv

variable {s : Search σ} {accepts : ByteArray → Bool} {distance : Nat} {pieces : List (Nat × Nat)}
  {shell : Shell σ}

theorem Inv.run (hcheck : s.ChecksBy accepts) (hfit : ProductsFit s.bits distance)
    (hstop : ∀ piece ∈ pieces, piece.2 ≤ s.bits.choose distance)
    (h : shell.Inv s accepts distance pieces) (turns : List Turn) :
    (shell.run s turns).Inv s accepts distance pieces :=
  run_induction s (fun _ turn h => h.step hcheck hfit hstop turn) turns h

/-- If a shell is done and found nothing, all candidates of all pieces were rejected. -/
theorem Inv.rejected (h : shell.Inv s accepts distance pieces) (hdone : ∀ i, shell.remaining i = 0)
    (hnone : shell.found = none) {piece : Nat × Nat} (hp : piece ∈ pieces) {id : Nat}
    (hlo : piece.1 ≤ id) (hhi : id < piece.2) : accepts (s.candidate distance id) = false := by
  obtain ⟨i, hi, hpiece⟩ := List.mem_iff_getElem.mp hp
  have hlt : i < shell.workers.length := h.length_eq ▸ hi
  have hw := List.getElem?_eq_getElem hlt
  have hrem : shell.workers[i].remaining = 0 := by
    have := hdone i
    rwa [remaining, hw] at this
  obtain ⟨hf, -⟩ | ⟨next, -, hstands, hbefore⟩ :=
    h.covers i _ piece hw (List.getElem?_eq_some_iff.mpr ⟨hi, hpiece⟩)
  · rw [hnone] at hf
    exact absurd hf Bool.false_ne_true
  · have := hstands.remaining_eq
    exact hbefore id hlo (by omega)

end Shell

/-! ## Hiring workers for the pieces of a shell -/

namespace Workforce

theorem snd_le_of_mem_pieces {count workers : Nat} {piece : Nat × Nat}
    (h : piece ∈ pieces count workers) : piece.2 ≤ count := by
  obtain ⟨i, hi, rfl⟩ := List.mem_map.mp h
  have hi := List.mem_range.mp hi
  dsimp only
  split
  · exact Nat.le_refl count
  · exact (Nat.mul_le_mul_right _ (by omega)).trans (Nat.mul_div_le count workers)

/-- A shell has at least as many candidates as workers. -/
theorem workerCount_le (force : Workforce) (distance : Nat) {count : Nat} (h : 0 < count) :
    force.workerCount distance count ≤ count := by
  have hdiv : count / max force.minCandidates 1 ≤ count := Nat.div_le_self ..
  simp only [workerCount]
  split <;> omega

theorem fst_lt_snd_of_mem_pieces {count workers : Nat} (hle : workers ≤ count) {piece : Nat × Nat}
    (h : piece ∈ pieces count workers) : piece.1 < piece.2 := by
  obtain ⟨i, hi, rfl⟩ := List.mem_map.mp h
  have hi := List.mem_range.mp hi
  have hsize : 0 < count / workers := Nat.div_pos hle (by omega)
  have hstep : i * (count / workers) < (i + 1) * (count / workers) :=
    Nat.mul_lt_mul_of_pos_right i.lt_succ_self hsize
  dsimp only
  split
  · rename_i hlast
    rw [hlast] at hstep
    exact Nat.lt_of_lt_of_le hstep (Nat.mul_div_le count workers)
  · exact hstep

/-- No number of a shell is left out. -/
theorem exists_piece {count workers id : Nat} (hw : 0 < workers) (hid : id < count) :
    ∃ piece ∈ pieces count workers, piece.1 ≤ id ∧ id < piece.2 := by
  let size := count / workers
  have hmem {i : Nat} (hi : i < workers) :
      (i * size, if i + 1 = workers then count else (i + 1) * size) ∈ pieces count workers :=
    List.mem_map.mpr ⟨i, List.mem_range.mpr hi, rfl⟩
  by_cases hlast : (workers - 1) * size ≤ id
  · refine ⟨_, hmem (Nat.sub_one_lt_of_lt hw), hlast, ?_⟩
    rw [if_pos (by omega)]
    exact hid
  · have hsize : 0 < size := Nat.pos_of_ne_zero fun h => hlast (by rw [h]; omega)
    have hi : id / size < workers - 1 := (Nat.div_lt_iff_lt_mul hsize).mpr (by omega)
    refine ⟨_, hmem (i := id / size) (by omega), Nat.div_mul_le_self id size, ?_⟩
    rw [if_neg (by omega)]
    exact Nat.lt_mul_of_div_lt (Nat.lt_succ_self _) hsize

@[simp] theorem length_pieces (count workers : Nat) : (pieces count workers).length = workers := by
  rw [pieces, List.length_map, List.length_range]

/-- The pieces ascend, and do not overlap. -/
theorem pairwise_pieces (count workers : Nat) :
    (pieces count workers).Pairwise fun piece later => piece.2 ≤ later.1 := by
  rw [pieces, List.pairwise_map]
  refine List.pairwise_lt_range.imp_of_mem fun {i j} _ hj hlt => ?_
  have hj := List.mem_range.mp hj
  dsimp only
  rw [if_neg (by omega)]
  exact Nat.mul_le_mul_right _ hlt

@[simp] theorem pieces_one (count : Nat) : pieces count 1 = [(0, count)] := by
  rw [pieces, List.range_one, List.map_singleton, Nat.zero_mul]
  rfl

end Workforce

namespace Search

/-- Every piece gets a worker at its start, with the context that is made next. -/
theorem hire_eq {s : Search σ} {start : Nat → σ} {inits : Nat} {pieces : List (Nat × Nat)}
    (hstart : ∀ i < pieces.length, s.init (inits + i) = .ok (start (inits + i))) (distance : Nat) :
    s.hire distance inits pieces =
      (pieces.mapIdx fun i piece => .ofIds s (start (inits + i)) distance piece.1 piece.2, []) := by
  induction pieces generalizing inits with
  | nil => rfl
  | cons piece rest ih =>
    have hnext : s.init inits = .ok (start inits) := hstart 0 (Nat.zero_lt_succ _)
    have hrest : ∀ i < rest.length, s.init (inits + 1 + i) = .ok (start (inits + 1 + i)) := by
      intro i hi
      rw [Nat.add_assoc, Nat.add_comm 1]
      exact hstart (i + 1) (Nat.succ_lt_succ hi)
    rw [hire, ih hrest, hnext, List.mapIdx_cons]
    dsimp only
    simp only [Nat.add_zero, Nat.add_assoc, Nat.add_comm 1]

/-- Where a context is made for each of the pieces, each gets a worker at its start. -/
theorem hire_spec {s : Search σ} {inits : Nat} {pieces : List (Nat × Nat)}
    (hinit : ∀ i < pieces.length, ∃ context, s.init (inits + i) = .ok context) (distance : Nat) :
    ∃ workers, s.hire distance inits pieces = (workers, []) ∧ workers.length = pieces.length ∧
      ∀ (i : Nat) (w : Worker σ) (piece : Nat × Nat), workers[i]? = some w → pieces[i]? = some piece →
        w.StandsAt s distance piece.1 piece.2 := by
  induction pieces generalizing inits with
  | nil => exact ⟨[], rfl, rfl, nofun⟩
  | cons piece rest ih =>
    obtain ⟨context, hcontext⟩ : ∃ context, s.init inits = .ok context :=
      hinit 0 (Nat.zero_lt_succ _)
    have hrest : ∀ i < rest.length, ∃ context, s.init (inits + 1 + i) = .ok context := by
      intro i hi
      rw [Nat.add_assoc, Nat.add_comm 1]
      exact hinit (i + 1) (Nat.succ_lt_succ hi)
    obtain ⟨workers, hhire, hlen, hstands⟩ := ih hrest
    refine ⟨.ofIds s context distance piece.1 piece.2 :: workers, ?_, congrArg (· + 1) hlen,
      fun i w other hw hp => ?_⟩
    · rw [hire, hhire, hcontext]
    cases i with
    | zero =>
      obtain rfl := Option.some.inj hw
      obtain rfl := Option.some.inj hp
      exact Worker.standsAt_ofIds ..
    | succ i => exact hstands i w other hw hp

/-- The pieces that get no worker, where `inits` contexts were asked for before, each one with the
reason. -/
def failing (s : Search σ) (inits : Nat) (pieces : List (Nat × Nat)) : List ((Nat × Nat) × String) :=
  (pieces.zipIdx inits).filterMap fun (piece, calls) =>
    match s.init calls with
    | .ok _ => none
    | .error reason => some (piece, reason)

/-- There is one message for every piece that gets no worker, in the order of the pieces. -/
theorem snd_hire (s : Search σ) (distance inits : Nat) (pieces : List (Nat × Nat)) :
    (s.hire distance inits pieces).2 =
      (s.failing inits pieces).map fun (piece, reason) => pieceFailure piece reason := by
  induction pieces generalizing inits with
  | nil => rfl
  | cons piece rest ih =>
    rw [hire, failing, List.zipIdx_cons, List.filterMap_cons]
    dsimp only
    cases s.init inits with
    | ok context => exact ih (inits + 1)
    | error reason => exact congrArg (pieceFailure piece reason :: ·) (ih (inits + 1))

theorem failing_sublist (s : Search σ) (inits : Nat) (pieces : List (Nat × Nat)) :
    ((s.failing inits pieces).map (·.1)).Sublist pieces := by
  induction pieces generalizing inits with
  | nil => exact .slnil
  | cons piece rest ih =>
    rw [failing, List.zipIdx_cons, List.filterMap_cons]
    dsimp only
    cases s.init inits with
    | ok context => exact (ih (inits + 1)).cons piece
    | error reason => exact (ih (inits + 1)).cons_cons piece

theorem mem_failing_iff {s : Search σ} {inits : Nat} {pieces : List (Nat × Nat)} {piece : Nat × Nat}
    {reason : String} : (piece, reason) ∈ s.failing inits pieces ↔
      ∃ i, pieces[i]? = some piece ∧ s.init (inits + i) = .error reason := by
  rw [failing, List.mem_filterMap]
  constructor
  · rintro ⟨⟨other, calls⟩, hmem, h⟩
    obtain ⟨hle, hget⟩ := List.mk_mem_zipIdx_iff_le_and_getElem?_sub.mp hmem
    cases hcall : s.init calls with
    | ok context => simp only [hcall, reduceCtorEq] at h
    | error why =>
      simp only [hcall, Option.some.injEq, Prod.mk.injEq] at h
      obtain ⟨rfl, rfl⟩ := h
      exact ⟨calls - inits, hget, by rwa [Nat.add_sub_cancel' hle]⟩
  · rintro ⟨i, hget, hcall⟩
    refine ⟨(piece, inits + i), List.mk_mem_zipIdx_iff_le_and_getElem?_sub.mpr ⟨by omega, ?_⟩, ?_⟩
    · rwa [Nat.add_sub_cancel_left]
    · simp only [hcall]

theorem failing_eq_nil_iff {s : Search σ} {inits : Nat} {pieces : List (Nat × Nat)} :
    s.failing inits pieces = [] ↔ ∀ i < pieces.length, ∃ context, s.init (inits + i) = .ok context := by
  constructor
  · intro h i hi
    cases hcall : s.init (inits + i) with
    | ok context => exact ⟨context, rfl⟩
    | error reason =>
      have hmem := mem_failing_iff.mpr ⟨i, List.getElem?_eq_getElem hi, hcall⟩
      rw [h] at hmem
      cases hmem
  · intro h
    refine List.eq_nil_iff_forall_not_mem.mpr fun ⟨piece, reason⟩ hmem => ?_
    obtain ⟨i, hget, hcall⟩ := mem_failing_iff.mp hmem
    obtain ⟨context, hcontext⟩ := h i (List.getElem?_eq_some_iff.mp hget).1
    rw [hcontext] at hcall
    cases hcall

theorem inv_of_standsAt {s : Search σ} (accepts : ByteArray → Bool) {distance : Nat}
    {pieces : List (Nat × Nat)} {workers : List (Worker σ)} (hlen : workers.length = pieces.length)
    (h : ∀ (i : Nat) (w : Worker σ) (piece : Nat × Nat), workers[i]? = some w →
      pieces[i]? = some piece → w.StandsAt s distance piece.1 piece.2) :
    Shell.Inv s accepts distance pieces { workers } where
  length_eq := hlen
  covers i w piece hw hp :=
    .inr ⟨piece.1, Nat.le_refl _, h i w piece hw hp, fun id h₁ h₂ => absurd h₁ (by omega)⟩
  first := nofun

end Search

end MeasuredBoot
