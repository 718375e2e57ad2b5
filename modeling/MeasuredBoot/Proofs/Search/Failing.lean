import MeasuredBoot.Proofs.Search.Exhausted

/-!
# Searches whose workers get no context

A context may not be had, for any worker of any shell. The search never passes over the candidates of such a
worker: it fails at the first shell that has one, if nothing ends it before, and reports every one of them.
So if a search finds nothing, the check was called with all candidates.

* `pairwise_vacancies`, `mem_vacancies_iff`: the workers without a context, in the order of their pieces;
* `run_of_passes`: a search that passes all its shells;
* `workers_iff`: the searches that fail because of the workers of a shell;
* `run_failures`: all of this together.
-/

namespace MeasuredBoot.Search

variable {σ : Type} {s : Search σ} {accepts : ByteArray → Bool} {maxDistance : Nat}

/-! ## The workers without a context -/

/-- The pieces of a shell that no worker looks at are in the order of their numbers. -/
theorem pairwise_vacancies (s : Search σ) {distance : Nat} (h : distance ≤ s.bits) :
    ((s.vacancies distance).map (·.1)).Pairwise fun piece later =>
      piece.1 < piece.2 ∧ piece.2 ≤ later.1 := by
  have hcount : 0 < s.bits.choose distance := Nat.choose_pos h
  have hcrew : s.crewSize distance ≤ s.bits.choose distance := by
    cases distance with
    | zero => exact hcount
    | succ distance => exact s.workerCount_le _ hcount
  refine List.Pairwise.sublist (s.failing_sublist ..) ?_
  refine (Workforce.pairwise_pieces ..).imp_of_mem fun hp _ hle => ?_
  exact ⟨Workforce.fst_lt_snd_of_mem_pieces hcrew hp, hle⟩

theorem mem_vacancies_iff {distance : Nat} {piece : Nat × Nat} {reason : String} :
    (piece, reason) ∈ s.vacancies distance ↔
      ∃ i, (s.shares distance)[i]? = some piece ∧
        s.init (s.initsBefore distance + i) = .error reason :=
  mem_failing_iff

/-! ## Searches that pass all their shells -/

theorem length_traces (s : Search σ) (maxDistance : Nat) :
    (s.traces maxDistance).length = s.initsBefore (min maxDistance s.bits + 1) := by
  rw [traces]
  induction min maxDistance s.bits with
  | zero => rfl
  | succ n ih =>
    have hlen := s.length_shellTraces (Nat.succ_pos n)
    rw [initsBefore, ← ih, List.range'_1_concat, List.flatMap_append, List.flatMap_singleton, Nat.add_comm 1,
      ← List.cons_append, List.length_append, hlen]

/-- If all shells are passed, nothing is found, and the check is called with the candidates of all shells. -/
theorem run_of_passes (hcheck : s.ChecksBy accepts)
    (hpass : ∀ d ≤ min maxDistance s.bits, s.Passes accepts d) :
    (s.run maxDistance).outcome = .ok none ∧
    (s.recording.run maxDistance).contexts.map (·.1) = (s.run maxDistance).contexts ∧
    s.asked maxDistance = s.traces maxDistance := by
  have hinit : ∀ calls < (s.traces maxDistance).length, ∃ context, s.init calls = .ok context := by
    rw [length_traces]
    exact fun calls => init_of_vacancies fun d hd => (hpass d (Nat.lt_succ_iff.mp hd)).staffed
  obtain ⟨first, -⟩ := hinit 0 (Nat.zero_lt_succ _)
  -- calls that are never made may give any context
  have hany : ∀ calls, ∃ context, calls < (s.traces maxDistance).length → s.init calls = .ok context := by
    intro calls
    by_cases hcalls : calls < (s.traces maxDistance).length
    · obtain ⟨context, hcontext⟩ := hinit calls hcalls
      exact ⟨context, fun _ => hcontext⟩
    · exact ⟨first, fun h => absurd h hcalls⟩
  obtain ⟨start, hstart⟩ := Classical.skolem.mp hany
  have hsizes d (hd : d ≤ min maxDistance s.bits) := (hpass d hd).numbered
  have hreject d (hd : d ≤ min maxDistance s.bits) := (hpass d hd).rejects
  have hrecorded := run_recording hcheck hsizes hreject hstart
  rw [asked, hrecorded, run_of_rejects hcheck hsizes hreject hstart, map_snd_contextsAfter]
  exact ⟨rfl, map_fst_contextsAfter .., rfl⟩

/-! ## Searches that fail -/

/-- A search fails because of the workers of a shell exactly if it passes all shells before, and this one can
be numbered but has no full crew. -/
theorem workers_iff (hcheck : s.ChecksBy accepts) {distance : Nat} {reasons : List String} :
    (s.run maxDistance).outcome = .error (.workers distance reasons) ↔
      0 < distance ∧ distance ≤ min maxDistance s.bits ∧ (∀ d < distance, s.Passes accepts d) ∧
      (shellSize? s.bits distance).isSome = true ∧ s.vacancies distance ≠ [] ∧
      reasons = s.messages distance := by
  have hconcludes := run_concludes hcheck maxDistance
  constructor
  · intro h
    rw [h] at hconcludes
    cases hconcludes with
    | ended d lower upper before ends =>
      cases ends with
      | workers later numbered vacant =>
        exact ⟨later, Nat.lt_succ_iff.mp upper, fun d' => before d' (Nat.zero_le d'), numbered, vacant, rfl⟩
  · rintro ⟨hpos, hle, hbefore, hnumbered, hvacant, rfl⟩
    have hends := hconcludes.ends (Nat.zero_le _) (Nat.lt_succ_of_le hle) (fun d _ => hbefore d)
      fun hpass => hvacant hpass.staffed
    -- of all that ends a search at this shell, only the missing workers are left
    generalize (s.run maxDistance).outcome = outcome at hends
    cases hends with
    | found _ staffed => exact absurd staffed hvacant
    | tooMany overflow =>
      rw [overflow] at hnumbered
      cases hnumbered
    | init first => exact absurd first hpos.ne'
    | workers => rfl

/-- If no context can be made at all, the search fails at once, and the check is not called. If some workers of
a later shell get no context, and nothing ended the search before, it fails with a message for each of these
workers, in the order of their pieces, whatever the other workers of the shell find. So a search that finds
nothing has called the check with every candidate of every shell, and one that finds something had workers for
all pieces of that shell and the shells before. -/
theorem run_failures {s : Search σ} {accepts : ByteArray → Bool}
    (hcheck : ∀ context data, (s.check context data).1 = accepts data) (maxDistance : Nat) :
    (∀ reason, s.init 0 = .error reason →
      s.run maxDistance = ⟨.error (.init reason), 1, []⟩ ∧ s.asked maxDistance = []) ∧
    (∀ d reasons, (s.run maxDistance).outcome = .error (.workers d reasons) ↔
      0 < d ∧ d ≤ min maxDistance s.bits ∧ (∀ d' < d, s.Passes accepts d') ∧
      (shellSize? s.bits d).isSome = true ∧ s.vacancies d ≠ [] ∧ reasons = s.messages d) ∧
    (∀ d ≤ s.bits,
      ((s.vacancies d).map (·.1)).Pairwise (fun piece later => piece.1 < piece.2 ∧ piece.2 ≤ later.1) ∧
      ∀ piece reason, (piece, reason) ∈ s.vacancies d ↔
        ∃ i, (s.shares d)[i]? = some piece ∧ s.init (s.initsBefore d + i) = .error reason) ∧
    ((s.run maxDistance).outcome = .ok none →
      (∀ d ≤ min maxDistance s.bits, s.vacancies d = []) ∧
      (s.recording.run maxDistance).contexts.map (·.1) = (s.run maxDistance).contexts ∧
      (s.asked maxDistance).flatten =
        (List.range (min maxDistance s.bits + 1)).flatMap s.shellCandidates) ∧
    ∀ c, (s.run maxDistance).outcome = .ok (some c) → ∀ d ≤ c.length, s.vacancies d = [] := by
  have hconcludes := run_concludes hcheck maxDistance
  refine ⟨fun reason hfailed => ?_, fun d reasons => workers_iff hcheck,
    fun d hd => ⟨s.pairwise_vacancies hd, fun piece reason => mem_vacancies_iff⟩, fun hnone => ?_,
    fun c hfound d hd => ?_⟩
  · have hrecorded : s.recording.init 0 = .error reason := by
      show (s.init 0).map (·, []) = _
      rw [hfailed]
      rfl
    rw [run, hfailed, asked, run, hrecorded]
    exact ⟨rfl, rfl⟩
  · rw [hnone] at hconcludes
    have hpass : ∀ d ≤ min maxDistance s.bits, s.Passes accepts d := by
      cases hconcludes with
      | passed hall => exact fun d hd => hall d (Nat.zero_le d) (Nat.lt_succ_of_le hd)
      | ended d lower upper before ends => cases ends
    obtain ⟨-, hcontexts, hasked⟩ := run_of_passes hcheck hpass
    rw [hasked, flatten_traces]
    exact ⟨fun d hd => (hpass d hd).staffed, hcontexts, rfl⟩
  · rw [hfound] at hconcludes
    cases hconcludes with
    | ended distance lower upper before ends =>
      cases ends with
      | found numbered staffed isMatch =>
        rw [isMatch.chooses.length_eq] at hd
        rcases Nat.lt_or_eq_of_le hd with hlt | rfl
        · exact (before d (Nat.zero_le d) hlt).staffed
        · exact staffed

/-- One byte and two workers, where only two contexts can be made: one for the byte itself, and one for the
first of the workers. -/
def ofTwoContexts : Search Unit where
  processors := 2
  minCandidates := 1
  initial := ⟨#[0x0f]⟩
  init := fun calls => if calls < 2 then .ok () else .error "out of contexts"
  check := fun _ data => (data.data = #[0x0e], ())

/-- The first worker finds a match, but the search fails, since there is no second worker. -/
theorem run_failures_ofTwoContexts :
    (ofTwoContexts.check () (ofTwoContexts.candidate 1 0)).1 = true ∧
      (ofTwoContexts.run 2).outcome =
        .error (.workers 1 ["init failed for combination ids 4..8: out of contexts"]) := by
  have hcheck : ∀ context data,
      (ofTwoContexts.check context data).1 = decide (data.data = #[0x0e]) := fun _ _ => rfl
  refine ⟨by decide, ((run_failures hcheck 2).2.1 _ _).mpr ⟨by decide, by decide, fun d hd => ?_, by decide,
    by decide, by decide⟩⟩
  obtain rfl : d = 0 := Nat.lt_one_iff.mp hd
  refine ⟨by decide, by decide, fun data hsize hdist => ?_⟩
  rw [← Bytes.eq_of_distance_eq_zero hsize.symm hdist]
  decide

end MeasuredBoot.Search
