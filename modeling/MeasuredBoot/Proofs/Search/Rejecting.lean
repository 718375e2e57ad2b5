import MeasuredBoot.Proofs.Search.Outcome

/-!
# Searches without a match

A worker all candidates of which are rejected goes through its piece to the end, and restores its byte string
after each of them. What it does is up to nobody else, so that the order of the steps of a shell does not
show in the contexts that are left: each of them is what the check makes of the candidates of one worker.

* `Worker.exhaust`, `Worker.exhaust_of_standsAt`: a worker after all its candidates;
* `Shell.Stand`, `Search.shell_restored`: the workers of a shell between two steps;
* `Shell.Stand.run_eq`: the workers of a shell, after their steps in any order;
* `Search.run_of_rejects`: the whole search, if all contexts can be made that are asked for.
-/

namespace MeasuredBoot

variable {σ : Type} {s : Search σ}

namespace Search

/-- The candidates of a piece of the shell of a distance, in the order of their numbers. -/
def candidates (s : Search σ) (distance : Nat) (piece : Nat × Nat) : List ByteArray :=
  (List.range' piece.1 (piece.2 - piece.1)).map (s.candidate distance)

/-- What the check makes of a context when it is called with some byte strings, one after the other. -/
def ask (s : Search σ) (context : σ) (asked : List ByteArray) : σ :=
  asked.foldl (fun context data => (s.check context data).2) context

/-- The candidates of the workers of a shell, worker by worker. -/
def shellTraces (s : Search σ) (distance : Nat) : List (List ByteArray) :=
  let count := s.bits.choose distance
  (Workforce.pieces count (s.workerCount distance count)).map (s.candidates distance)

/-- The byte strings that a search looks at if it accepts none of them: first the one that it starts from,
and then the candidates of every worker of every shell. -/
def traces (s : Search σ) (maxDistance : Nat) : List (List ByteArray) :=
  [s.initial] :: (List.range' 1 (min maxDistance s.bits)).flatMap s.shellTraces

/-- What the check makes of the contexts that were made one after the other, of each one with byte strings
of its own. -/
def contextsAfter (s : Search σ) (start : Nat → σ) (traces : List (List ByteArray)) : List σ :=
  traces.mapIdx fun calls asked => s.ask (start calls) asked

end Search

/-! ## One worker -/

namespace Worker

theorem examine_of_rejects {w : Worker σ} (h : (w.examine s).2 = false) :
    w.examine s =
      ({ context := (s.check w.context (w.cursor.flip w.data)).2
         data := w.cursor.flip (w.cursor.flip w.data)
         cursor := w.cursor.advance
         remaining := w.remaining - 1 }, false) := by
  revert h
  rw [examine]
  cases s.check w.context (w.cursor.flip w.data) with
  | mk accepted context =>
    cases accepted with
    | true =>
      intro h
      cases h
    | false =>
      intro _
      rfl

/-- The worker after all its candidates. -/
def exhaust (s : Search σ) (w : Worker σ) : Worker σ := (fun w => (w.examine s).1)^[w.remaining] w

theorem exhaust_of_done {w : Worker σ} (h : w.remaining = 0) : w.exhaust s = w := by
  rw [exhaust, h]
  rfl

/-- A candidate that is rejected does not change what becomes of a worker. -/
theorem exhaust_examine {w : Worker σ} (hreject : (w.examine s).2 = false) (h : w.remaining ≠ 0) :
    (w.examine s).1.exhaust s = w.exhaust s := by
  obtain ⟨n, hn⟩ := Nat.exists_eq_succ_of_ne_zero h
  have hless : (w.examine s).1.remaining = n := by
    rw [examine_of_rejects hreject]
    exact congrArg (· - 1) hn
  rw [exhaust, exhaust, hless, hn]
  rfl

/-- A worker shows the check all candidates from the one that it stands at up to the end of its piece, if
they are rejected. -/
theorem exhaust_of_standsAt {accepts : ByteArray → Bool} (hcheck : s.ChecksBy accepts)
    {distance next stop : Nat} (hfit : ProductsFit s.bits distance) (hstop : stop ≤ s.bits.choose distance)
    (hreject : s.RejectsAt accepts distance) {w : Worker σ} (hw : w.StandsAt s distance next stop) :
    (w.exhaust s).context = s.ask w.context (s.candidates distance (next, stop)) := by
  obtain ⟨n, hn⟩ : ∃ n, stop - next = n := ⟨_, rfl⟩
  rw [Search.candidates, hn]
  have hremaining := hw.remaining_eq.trans hn
  induction n generalizing next w with
  | zero =>
    rw [exhaust_of_done hremaining]
    rfl
  | succ n ih =>
    have hnext : next < stop := by omega
    have hless : stop - (next + 1) = n := by omega
    have hrest : w.remaining ≠ 0 := by omega
    have hcandidate := hreject.candidate hfit (Nat.lt_of_lt_of_le hnext hstop)
    obtain ⟨hexamine, -, hstands⟩ := examine_spec hcheck hfit hstop hw hnext
    have hafter := hstands hcandidate
    have hcontext : (w.examine s).1.context = (s.check w.context (s.candidate distance next)).2 := by
      rw [examine_of_rejects (hexamine.trans hcandidate), hw.data_eq, hw.cursor_eq hnext]
      rfl
    rw [← exhaust_examine (hexamine.trans hcandidate) hrest, ih hafter hless (hafter.remaining_eq.trans hless),
      hcontext, List.range'_succ, List.map_cons]
    rfl

end Worker

/-! ## The workers of a shell -/

namespace Shell

/-- Nothing was found, and every worker stands at some candidate, or at the end of its piece. -/
structure Stand (s : Search σ) (distance : Nat) (shell : Shell σ) : Prop where
  found_eq : shell.found = none
  stands : ∀ w ∈ shell.workers,
    ∃ next stop, stop ≤ s.bits.choose distance ∧ w.StandsAt s distance next stop

namespace Stand

variable {accepts : ByteArray → Bool} {distance : Nat} {shell : Shell σ}

/-- The byte strings of all workers are restored. -/
theorem data_eq (h : shell.Stand s distance) : ∀ w ∈ shell.workers, w.data = s.initial := by
  intro w hw
  obtain ⟨next, stop, -, hstands⟩ := h.stands w hw
  exact hstands.data_eq

/-- A step does nothing, or a worker looks at a candidate, which is rejected, and goes on. -/
theorem step_cases (hcheck : s.ChecksBy accepts) (hfit : ProductsFit s.bits distance)
    (hreject : s.RejectsAt accepts distance) (h : shell.Stand s distance) (turn : Turn) :
    shell.step s turn = shell ∨
      ∃ w next stop, shell.workers[turn.worker]? = some w ∧ w.remaining ≠ 0 ∧
        stop ≤ s.bits.choose distance ∧ (w.examine s).2 = false ∧
        (w.examine s).1.StandsAt s distance next stop ∧
        shell.step s turn = { workers := shell.workers.set turn.worker (w.examine s).1 } := by
  obtain hsame | ⟨w, hw, hrest, ⟨hfound, -⟩ | hstep⟩ := Shell.step_cases s shell turn
  · exact .inl hsame
  · rw [h.found_eq] at hfound
    cases hfound
  · obtain ⟨next, stop, hstop, hstands⟩ := h.stands w (List.mem_of_getElem? hw)
    have hnext : next < stop := by
      have := hstands.remaining_eq
      omega
    obtain ⟨hexamine, -, hafter⟩ := Worker.examine_spec hcheck hfit hstop hstands hnext
    have hcandidate := hreject.candidate hfit (Nat.lt_of_lt_of_le hnext hstop)
    refine .inr ⟨w, next + 1, stop, hw, hrest, hstop, hexamine.trans hcandidate, hafter hcandidate, ?_⟩
    rw [hstep, hexamine, hcandidate, if_neg Bool.false_ne_true, h.found_eq]

theorem step (hcheck : s.ChecksBy accepts) (hfit : ProductsFit s.bits distance)
    (hreject : s.RejectsAt accepts distance) (h : shell.Stand s distance) (turn : Turn) :
    (shell.step s turn).Stand s distance := by
  obtain hsame | ⟨w, next, stop, -, -, hstop, -, hafter, hstep⟩ := h.step_cases hcheck hfit hreject turn
  · rw [hsame]
    exact h
  rw [hstep]
  refine ⟨rfl, fun v hv => ?_⟩
  obtain hv | rfl := List.mem_or_eq_of_mem_set hv
  · exact h.stands v hv
  · exact ⟨next, stop, hstop, hafter⟩

/-- What becomes of the workers stays the same, whoever takes a step. -/
theorem exhaust_step (hcheck : s.ChecksBy accepts) (hfit : ProductsFit s.bits distance)
    (hreject : s.RejectsAt accepts distance) (h : shell.Stand s distance) (turn : Turn) :
    (shell.step s turn).workers.map (Worker.exhaust s) = shell.workers.map (Worker.exhaust s) := by
  obtain hsame | ⟨w, -, -, hw, hrest, -, hexamine, -, hstep⟩ := h.step_cases hcheck hfit hreject turn
  · rw [hsame]
  · obtain ⟨hi, rfl⟩ := List.getElem?_eq_some_iff.mp hw
    have hi' : turn.worker < (shell.workers.map (Worker.exhaust s)).length := by rwa [List.length_map]
    rw [hstep, List.map_set, Worker.exhaust_examine hexamine hrest,
      ← List.getElem_map (Worker.exhaust s) (h := hi'), List.set_getElem_self]

theorem foldl_step (hcheck : s.ChecksBy accepts) (hfit : ProductsFit s.bits distance)
    (hreject : s.RejectsAt accepts distance) (h : shell.Stand s distance) (turns : List Turn) :
    (turns.foldl (Shell.step s) shell).Stand s distance :=
  List.foldlRecOn turns (Shell.step s) h fun _ h turn _ => h.step hcheck hfit hreject turn

/-- The workers go through all their candidates, in whichever order they take their steps. -/
theorem run_eq (hcheck : s.ChecksBy accepts) (hfit : ProductsFit s.bits distance)
    (hreject : s.RejectsAt accepts distance) (h : shell.Stand s distance) (turns : List Turn) :
    shell.run s turns = { workers := shell.workers.map (Worker.exhaust s) } := by
  obtain ⟨hafter, hsame⟩ : (shell.run s turns).Stand s distance ∧
      (shell.run s turns).workers.map (Worker.exhaust s) = shell.workers.map (Worker.exhaust s) := by
    refine run_induction (P := fun other => other.Stand s distance ∧
      other.workers.map (Worker.exhaust s) = shell.workers.map (Worker.exhaust s)) s
        (fun other turn ⟨hstand, hkept⟩ => ?_) turns ⟨h, rfl⟩
    exact ⟨hstand.step hcheck hfit hreject turn,
      (hstand.exhaust_step hcheck hfit hreject turn).trans hkept⟩
  have hdone : ∀ w ∈ (shell.run s turns).workers, w.exhaust s = w := by
    intro w hw
    obtain ⟨i, hi⟩ := List.mem_iff_getElem?.mp hw
    have hremaining := remaining_run s turns shell i
    rw [remaining, hi] at hremaining
    exact Worker.exhaust_of_done hremaining
  rw [List.map_congr_left hdone, List.map_id'] at hsame
  rw [← hsame, ← hafter.found_eq]

end Stand

end Shell

/-! ## The whole search -/

namespace Search

variable {accepts : ByteArray → Bool} {start : Nat → σ}

theorem stand_ofIds (s : Search σ) (context : Nat → σ) (distance crew : Nat) :
    Shell.Stand s distance
      { workers := (Workforce.pieces (s.bits.choose distance) crew).mapIdx fun i piece =>
          Worker.ofIds s (context i) distance piece.1 piece.2 } := by
  refine ⟨rfl, fun w hw => ?_⟩
  obtain ⟨i, hi, rfl⟩ := List.mem_mapIdx.mp hw
  exact ⟨_, _, Workforce.snd_le_of_mem_pieces (List.getElem_mem hi), Worker.standsAt_ofIds ..⟩

/-- Between two steps of a shell, whatever the crew is, the byte strings of all workers are restored. -/
theorem shell_restored (hcheck : s.ChecksBy accepts) (hstart : ∀ calls, s.init calls = .ok (start calls))
    {distance : Nat} (hfit : ProductsFit s.bits distance) (hreject : s.RejectsAt accepts distance)
    (crew inits : Nat) :
    ∃ workers, s.hire distance inits (Workforce.pieces (s.bits.choose distance) crew) = (workers, []) ∧
      ∀ turns : List Turn,
        ∀ w ∈ (turns.foldl (Shell.step s) { workers }).workers, w.data = s.initial :=
  ⟨_, hire_eq (fun _ _ => hstart _) distance, fun turns =>
    ((stand_ofIds s _ distance crew).foldl_step hcheck hfit hreject turns).data_eq⟩

/-- The contexts of the workers of a shell, after their steps. -/
theorem contexts_exhaust (hcheck : s.ChecksBy accepts) (start : Nat → σ) {distance : Nat}
    (hfit : ProductsFit s.bits distance) (hreject : s.RejectsAt accepts distance) (inits : Nat)
    {pieces : List (Nat × Nat)} (hstop : ∀ piece ∈ pieces, piece.2 ≤ s.bits.choose distance) :
    ((pieces.mapIdx fun i piece =>
      Worker.ofIds s (start (inits + i)) distance piece.1 piece.2).map (Worker.exhaust s)).map (·.context) =
      s.contextsAfter (fun i => start (inits + i)) (pieces.map (s.candidates distance)) := by
  refine List.ext_getElem ?_ fun i h₁ h₂ => ?_
  · simp only [contextsAfter, List.length_map, List.length_mapIdx]
  have hi : i < pieces.length := by simpa only [List.length_map, List.length_mapIdx] using h₁
  simp only [contextsAfter, List.getElem_map, List.getElem_mapIdx]
  exact Worker.exhaust_of_standsAt hcheck hfit (hstop _ (List.getElem_mem hi)) hreject (Worker.standsAt_ofIds ..)

theorem contextsAfter_append (start : Nat → σ) (xs ys : List (List ByteArray)) :
    s.contextsAfter start (xs ++ ys) =
      s.contextsAfter start xs ++ s.contextsAfter (fun i => start (xs.length + i)) ys := by
  rw [contextsAfter, List.mapIdx_append]
  simp only [contextsAfter, Nat.add_comm]

theorem length_shellTraces (s : Search σ) {distance : Nat} (hpos : 0 < distance) :
    (s.shellTraces distance).length = s.crewSize distance := by
  rw [shellTraces, List.length_map, ← s.shares_eq hpos, length_shares]

/-- The shells that are left, after some byte strings that were looked at before, if all contexts are made
and no byte string is accepted. -/
theorem runShells_of_rejects (hcheck : s.ChecksBy accepts) {distance left : Nat} (hpos : 0 < distance)
    (hsizes : ∀ d, distance ≤ d → d < distance + left → (shellSize? s.bits d).isSome = true)
    (hreject : ∀ d, distance ≤ d → d < distance + left → s.RejectsAt accepts d)
    (before : List (List ByteArray))
    (hstart : ∀ calls < (before ++ (List.range' distance left).flatMap s.shellTraces).length,
      s.init calls = .ok (start calls)) :
    s.runShells distance before.length (s.contextsAfter start before) left =
      let all := before ++ (List.range' distance left).flatMap s.shellTraces
      ⟨.ok none, all.length, s.contextsAfter start all⟩ := by
  induction left generalizing distance before with
  | zero =>
    dsimp only
    rw [List.range'_zero, List.flatMap_nil, List.append_nil, runShells]
  | succ left ih =>
    have hsize := hsizes distance (Nat.le_refl _) (by omega)
    have hnone := hreject distance (Nat.le_refl _) (by omega)
    obtain ⟨count, hcount⟩ := Option.isSome_iff_exists.mp hsize
    obtain ⟨hfit, rfl⟩ := shellSize?_eq_some hcount
    rw [List.range'_succ, List.flatMap_cons, ← List.append_assoc] at hstart ⊢
    have hinits : before.length + s.crewSize distance = (before ++ s.shellTraces distance).length := by
      rw [List.length_append, s.length_shellTraces hpos]
    have hcontext : ∀ i < (s.shares distance).length,
        s.init (before.length + i) = .ok (start (before.length + i)) := by
      intro i hi
      rw [length_shares] at hi
      refine hstart _ ?_
      rw [List.length_append]
      omega
    have hhire := hire_eq hcontext distance
    have hstop : ∀ piece ∈ s.shares distance, piece.2 ≤ s.bits.choose distance :=
      fun piece hp => Workforce.snd_le_of_mem_pieces hp
    have hcontexts : s.contextsAfter start before ++ (((s.shares distance).mapIdx fun i piece =>
          Worker.ofIds s (start (before.length + i)) distance piece.1 piece.2).map
            (Worker.exhaust s)).map (·.context) =
        s.contextsAfter start (before ++ s.shellTraces distance) := by
      rw [contexts_exhaust hcheck start hfit hnone before.length hstop, contextsAfter_append, s.shares_eq hpos]
      rfl
    have hrun := (stand_ofIds s (fun i => start (before.length + i)) distance (s.crewSize distance)).run_eq
      hcheck hfit hnone (s.turns distance)
    rw [runShells_of_hire hpos hsize hhire]
    dsimp only [shares] at hrun hcontexts ⊢
    rw [hrun]
    dsimp only
    rw [hcontexts, hinits, ih (Nat.succ_pos _) (fun d h₁ h₂ => hsizes d (by omega) (by omega))
      (fun d h₁ h₂ => hreject d (by omega) (by omega)) _ hstart]

/-- The search finds nothing, and the contexts are left as the check makes them of all candidates. -/
theorem run_of_rejects (hcheck : s.ChecksBy accepts) {maxDistance : Nat}
    (hsizes : ∀ d ≤ min maxDistance s.bits, (shellSize? s.bits d).isSome = true)
    (hreject : ∀ d ≤ min maxDistance s.bits, s.RejectsAt accepts d)
    (hstart : ∀ calls < (s.traces maxDistance).length, s.init calls = .ok (start calls)) :
    s.run maxDistance =
      ⟨.ok none, (s.traces maxDistance).length, s.contextsAfter start (s.traces maxDistance)⟩ := by
  have hcandidate : (s.check (start 0) s.initial).1 = false :=
    (hcheck ..).trans (hreject 0 (Nat.zero_le _) _ rfl (Bytes.distance_self _))
  have hshells : s.runShells 1 1 (s.contextsAfter start [[s.initial]]) (min maxDistance s.bits) = _ :=
    runShells_of_rejects hcheck Nat.one_pos (fun d _ hd => hsizes d (by omega))
      (fun d _ hd => hreject d (by omega)) [[s.initial]] hstart
  rw [run, hstart 0 (Nat.zero_lt_succ _)]
  dsimp only
  split
  · rename_i hout
    rw [hout] at hcandidate
    cases hcandidate
  · rename_i context hout
    have hcontext : s.contextsAfter start [[s.initial]] = [context] := by
      show [(s.check (start 0) s.initial).2] = [context]
      rw [hout]
    rw [← hcontext]
    exact hshells

end Search

end MeasuredBoot
