import MeasuredBoot.Proofs.Bytes.Words
import MeasuredBoot.Proofs.Search.Nearest

/-!
# Checks that use their context

A check may read and change the context of its worker, as long as that does not show in what it
accepts. `Search.ChecksWithin` says so by an invariant of the contexts. Such a search takes the same
steps as the one that has no contexts (`Search.forget`):

* `Worker.examine_forget`: one candidate;
* `Shell.step_forget`, `Shell.run_forget`: a step of a shell, and all of them;
* `Search.outcome_forget`: the whole search;
* `Search.outcome_cases`: what a search finds whose check uses the context.
-/

namespace MeasuredBoot

variable {σ : Type} {s : Search σ} {P : σ → Prop} {accepts : ByteArray → Bool}

namespace Search

/-- The same search by a check that goes by the candidate only. -/
def forget (s : Search σ) (accepts : ByteArray → Bool) : Search Unit where
  toWorkforce := s.toWorkforce
  initial := s.initial
  init := fun _ => .ok ()
  check := fun _ data => (accepts data, ())

/-- The contexts have a property that all checks keep, and with which a candidate is accepted in the
way of `accepts`. -/
structure ChecksWithin (s : Search σ) (P : σ → Prop) (accepts : ByteArray → Bool) : Prop where
  init : ∀ calls, ∃ context, s.init calls = .ok context ∧ P context
  check : ∀ context data, P context → data.size = s.initial.size →
    (s.check context data).1 = accepts data ∧ P (s.check context data).2

end Search

/-! ## Workers -/

namespace Worker

/-- The worker without its context. -/
def forget (w : Worker σ) : Worker Unit := { w with context := () }

/-- The context has the property, and the byte string has the size that it started with. -/
structure Within (s : Search σ) (P : σ → Prop) (w : Worker σ) : Prop where
  context : P w.context
  size_eq : w.data.size = s.initial.size

/-- A worker that forgets its context looks at the same candidate, to the same effect. -/
theorem examine_forget (hs : s.ChecksWithin P accepts) {w : Worker σ} (hw : w.Within s P) :
    w.forget.examine (s.forget accepts) = ((w.examine s).1.forget, (w.examine s).2) ∧
      (w.examine s).1.Within s P := by
  let candidate := w.cursor.flip w.data
  have hsize : candidate.size = s.initial.size := (Bytes.size_flipBits ..).trans hw.size_eq
  obtain ⟨haccept, hcontext⟩ := hs.check w.context candidate hw.context hsize
  have hcheck : (s.forget accepts).check () candidate = (accepts candidate, ()) := rfl
  cases hout : s.check w.context candidate with
  | mk accepted context =>
    rw [hout] at haccept hcontext
    rw [examine, examine]
    simp only [forget]
    rw [hcheck, ← haccept, hout]
    cases accepted with
    | true => exact ⟨rfl, hcontext, hsize⟩
    | false => exact ⟨rfl, hcontext, (Bytes.size_flipBits ..).trans hsize⟩

end Worker

/-! ## Shells -/

namespace Shell

/-- The shell without the contexts of its workers. -/
def forget (shell : Shell σ) : Shell Unit := ⟨shell.workers.map Worker.forget, shell.found⟩

/-- All workers have contexts with the property. -/
def Within (s : Search σ) (P : σ → Prop) (shell : Shell σ) : Prop :=
  ∀ w ∈ shell.workers, w.Within s P

theorem remaining_forget (shell : Shell σ) (i : Nat) : shell.forget.remaining i = shell.remaining i := by
  simp only [remaining, forget, List.getElem?_map]
  cases shell.workers[i]? <;> rfl

theorem Within.set {shell : Shell σ} (h : shell.Within s P) {i : Nat} {w : Worker σ}
    {found : Option Combination} (hw : w.Within s P) :
    Within s P { workers := shell.workers.set i w, found } :=
  fun v hv => (List.mem_or_eq_of_mem_set hv).elim (h v) (· ▸ hw)

theorem step_forget (hs : s.ChecksWithin P accepts) {shell : Shell σ} (h : shell.Within s P)
    (turn : Turn) :
    shell.forget.step (s.forget accepts) turn = (shell.step s turn).forget ∧
      (shell.step s turn).Within s P := by
  have hget : shell.forget.workers[turn.worker]? = (shell.workers[turn.worker]?).map Worker.forget :=
    List.getElem?_map
  have hset (w : Worker σ) (found : Option Combination) :
      ⟨shell.forget.workers.set turn.worker w.forget, found⟩ =
        forget ⟨shell.workers.set turn.worker w, found⟩ :=
    congrArg (Shell.mk · found) List.map_set.symm
  have hfound : shell.forget.found = shell.found := rfl
  rw [step, step, hget, hfound]
  cases hw : shell.workers[turn.worker]? with
  | none => exact ⟨rfl, h⟩
  | some w =>
    have hwithin := h w (List.mem_of_getElem? hw)
    rw [Option.map_some]
    dsimp only
    by_cases hdone : w.remaining = 0
    · rw [if_pos hdone, if_pos (show w.forget.remaining = 0 from hdone)]
      exact ⟨rfl, h⟩
    rw [if_neg hdone, if_neg (show ¬w.forget.remaining = 0 from hdone)]
    by_cases hnotice : (turn.notices && shell.found.isSome) = true
    · rw [if_pos hnotice, if_pos hnotice]
      exact ⟨hset w.stop shell.found, h.set ⟨hwithin.context, hwithin.size_eq⟩⟩
    · obtain ⟨hexamine, hafter⟩ := w.examine_forget hs hwithin
      rw [if_neg hnotice, if_neg hnotice, hexamine]
      exact ⟨hset _ _, h.set hafter⟩

theorem settle_forget (hs : s.ChecksWithin P accepts) {shell : Shell σ} (h : shell.Within s P)
    (i : Nat) :
    shell.forget.settle (s.forget accepts) i = (shell.settle s i).forget ∧
      (shell.settle s i).Within s P := by
  induction shell using settle.induct s i with
  | case1 shell hz =>
    rw [settle, dif_pos ((remaining_forget shell i).trans hz), settle, dif_pos hz]
    exact ⟨rfl, h⟩
  | case2 shell hz ih =>
    obtain ⟨hstep, hwithin⟩ := step_forget hs h ⟨i, true⟩
    rw [settle, dif_neg fun hz' => hz ((remaining_forget shell i).symm.trans hz'), hstep,
      settle.eq_def s shell, dif_neg hz]
    exact ih hwithin

/-- What each of some steps does the same way without contexts, all of them do. -/
theorem foldl_forget {ι : Type} {f : Shell σ → ι → Shell σ} {g : Shell Unit → ι → Shell Unit}
    (hfg : ∀ shell i, Within s P shell → g shell.forget i = (f shell i).forget ∧ Within s P (f shell i))
    (is : List ι) {shell : Shell σ} (h : shell.Within s P) :
    is.foldl g shell.forget = (is.foldl f shell).forget ∧ Within s P (is.foldl f shell) := by
  induction is generalizing shell with
  | nil => exact ⟨rfl, h⟩
  | cons i is ih =>
    obtain ⟨heq, hwithin⟩ := hfg shell i h
    rw [List.foldl_cons, heq]
    exact ih hwithin

theorem run_forget (hs : s.ChecksWithin P accepts) {shell : Shell σ} (h : shell.Within s P)
    (turns : List Turn) :
    shell.forget.run (s.forget accepts) turns = (shell.run s turns).forget := by
  obtain ⟨heq, hwithin⟩ := foldl_forget (fun _ turn h => step_forget hs h turn) turns h
  have hlen : shell.forget.workers.length = shell.workers.length := List.length_map ..
  rw [run, run, hlen, heq]
  exact (foldl_forget (fun _ i h => settle_forget hs h i) _ hwithin).1

end Shell

/-! ## The search -/

namespace Search

/-- Every piece gets a worker, with contexts as without. -/
theorem hire_forget (hs : s.ChecksWithin P accepts) (distance inits inits' : Nat)
    (pieces : List (Nat × Nat)) :
    ∃ workers, s.hire distance inits pieces = (workers, []) ∧
      (s.forget accepts).hire distance inits' pieces = (workers.map Worker.forget, []) ∧
      ∀ w ∈ workers, w.Within s P := by
  induction pieces generalizing inits inits' with
  | nil => exact ⟨[], rfl, rfl, nofun⟩
  | cons piece rest ih =>
    obtain ⟨workers, hhire, hhire', hwithin⟩ := ih (inits + 1) (inits' + 1)
    obtain ⟨context, hcontext, hP⟩ := hs.init inits
    refine ⟨.ofIds s context distance piece.1 piece.2 :: workers, ?_, ?_,
      List.forall_mem_cons.mpr ⟨⟨hP, rfl⟩, hwithin⟩⟩
    · rw [hire, hhire, hcontext]
    · rw [hire, hhire']
      rfl

theorem outcome_runShells_forget (hs : s.ChecksWithin P accepts) (distance inits inits' : Nat)
    (contexts : List σ) (contexts' : List Unit) (left : Nat) :
    ((s.forget accepts).runShells distance inits' contexts' left).outcome =
      (s.runShells distance inits contexts left).outcome := by
  induction left generalizing distance inits inits' contexts contexts' with
  | zero => rfl
  | succ left ih =>
    have hsame : (s.forget accepts).bits = s.bits := rfl
    rw [runShells, runShells, hsame]
    cases shellSize s.bits distance with
    | error e => rfl
    | ok count =>
      let shares := Workforce.pieces count (s.workerCount distance count)
      obtain ⟨workers, hhire, hhire', hwithin⟩ := hire_forget hs distance inits inits' shares
      have hstart : Shell.Within s P { workers } := hwithin
      have hrun := Shell.run_forget hs hstart (s.turns distance)
      have hcrew : (s.forget accepts).workerCount distance count = s.workerCount distance count := rfl
      have hturns : (s.forget accepts).turns distance = s.turns distance := rfl
      have hforget : Shell.forget { workers } = { workers := workers.map Worker.forget } := rfl
      dsimp only
      rw [hcrew, hhire, hhire', hturns, ← hforget, hrun]
      dsimp only [Shell.forget]
      cases (Shell.run s (s.turns distance) { workers }).found with
      | some c => rfl
      | none => exact ih ..

/-- A search finds the same combination, and fails for the same reason, without contexts. -/
theorem outcome_forget (hs : s.ChecksWithin P accepts) (maxDistance : Nat) :
    ((s.forget accepts).run maxDistance).outcome = (s.run maxDistance).outcome := by
  obtain ⟨context, hcontext, hP⟩ := hs.init 0
  obtain ⟨haccept, -⟩ := hs.check context s.initial hP rfl
  have hinit : (s.forget accepts).init 0 = .ok () := rfl
  have hcheck : (s.forget accepts).check () (s.forget accepts).initial = (accepts s.initial, ()) := rfl
  cases hout : s.check context s.initial with
  | mk accepted after =>
    rw [hout] at haccept
    rw [run, run, hcontext, hinit]
    dsimp only
    rw [hcheck, ← haccept, hout]
    cases accepted with
    | true => rfl
    | false => exact outcome_runShells_forget hs ..

/-- A search finds flips that are accepted, with nothing nearer that is, or nothing within the distance
is accepted, or there is a shell that cannot be numbered. Of the flips at the least distance a single
worker finds those of the least number. -/
theorem outcome_cases (hs : s.ChecksWithin P accepts) (maxDistance : Nat) :
    (∃ c, (s.run maxDistance).outcome = .ok (some c) ∧ c.Pairwise (· < ·) ∧ (∀ b ∈ c, b < s.bits) ∧
      c.length ≤ maxDistance ∧ accepts (Bytes.flipBits c s.initial) = true ∧
      (∀ data : ByteArray, data.size = s.initial.size → Bytes.distance s.initial data < c.length →
        accepts data = false) ∧
      ((∀ d count, s.workerCount d count = 1) → ∀ other, Combination.Chooses other c.length s.bits →
        accepts (Bytes.flipBits other s.initial) = true →
          Combination.weight 0 c ≤ Combination.weight 0 other)) ∨
    ((s.run maxDistance).outcome = .ok none ∧ ∀ data : ByteArray, data.size = s.initial.size →
      Bytes.distance s.initial data ≤ maxDistance → accepts data = false) ∨
    ∃ d ≤ s.bits, shellSize? s.bits d = none := by
  have hfinds := run_finds (s := s.forget accepts) (fun _ _ => rfl) (fun _ => ⟨(), rfl⟩) maxDistance
  have hbits : (s.forget accepts).bits = s.bits := rfl
  have hinitial : (s.forget accepts).initial = s.initial := rfl
  rw [outcome_forget hs, hbits] at hfinds
  match hout : (s.run maxDistance).outcome with
  | .ok (some c) =>
    rw [hout] at hfinds
    obtain ⟨d, -, hd, -, hbefore, hmatch, hleast⟩ := hfinds
    obtain rfl := hmatch.chooses.length_eq
    exact .inl ⟨c, rfl, hmatch.chooses.ascending, hmatch.chooses.below, by omega, hmatch.accepted,
      fun data hsize hlt => hbefore _ (Nat.zero_le _) hlt data hsize rfl,
      fun hone other hother haccept => hleast (fun count _ => hone _ count) other ⟨hother, haccept⟩⟩
  | .ok none =>
    rw [hout] at hfinds
    refine .inr (.inl ⟨rfl, fun data hsize hdist => ?_⟩)
    have hle : Bytes.distance s.initial data ≤ s.bits := Bytes.distance_le ..
    have hlt : Bytes.distance s.initial data < min maxDistance s.bits + 1 := by omega
    exact (hfinds _ (Nat.zero_le _) hlt).2 data hsize rfl
  | .error e =>
    rw [hout] at hfinds
    obtain ⟨d, -, hd, -, hnone, -⟩ := hfinds
    exact .inr (.inr ⟨d, by omega, hnone⟩)

end Search

end MeasuredBoot
