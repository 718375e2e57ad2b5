import MeasuredBoot.Proofs.Run.Status

/-!
# Actions that fail or are skipped

An action that fails, at whatever point, leaves the machine as it found it: a module that refuses a batch
takes all of it back, and a measurement is remembered only once the module took it. An action is skipped if
it would measure nothing, or if it would log data that cannot be found, and then does nothing either.

* `Machine.withTpm_eq_self`: what leaves a module alone when it is refused leaves the machine alone;
* `Action.Skips`: which actions are skipped, and what is noted for it;
* `Action.ends_apply`: an action leaves the machine alone, or it starts the module, or it measures;
* `Action.apply_untouched`: what failed and skipped actions leave behind.
-/

namespace MeasuredBoot

/-! ## Refusals -/

theorem Tpm.initLazy_of_error {tpm : Tpm} {locality : UInt8} {cause : Coordinates} {e : TpmError}
    (h : (tpm.initLazy locality cause).2 = .error e) : (tpm.initLazy locality cause).1 = tpm := by
  obtain hsame | ⟨_, -, htaken⟩ := tpm.initLazy_started locality cause
  · exact hsame
  · rw [htaken] at h
    cases h

namespace Machine

variable {m : Machine}

/-- What leaves a module as it is whenever it is refused leaves the machine as it is. -/
theorem withTpm_eq_self {act : Tpm → Tpm × Except TpmError Unit} {e : BootError}
    (hact : ∀ tpm reason, (act tpm).2 = .error reason → (act tpm).1 = tpm)
    (h : (m.withTpm act).2 = .error e) : (m.withTpm act).1 = m := by
  cases htpm : m.tpm with
  | none => simp only [withTpm, htpm]
  | some tpm =>
    rw [withTpm_eq htpm] at h ⊢
    obtain ⟨reason, hreason, -⟩ := mapError_eq_error_iff.mp h
    rw [hact tpm reason hreason, ← htpm]

end Machine

/-! ## Actions -/

namespace Action

variable {m : Machine} {action : Action} {issue : BootError}

/-- An action is skipped: an extension by no bytes, or an event whose data cannot be found. -/
inductive Skips (as : Artifacts) : Action → BootError → Prop where
  | empty {pcr : UInt8} {source : DataSource} {data : Data} {bytes : ByteArray}
    (hfetch : source.fetch as = .ok (data, bytes)) (hempty : bytes.isEmpty = true) :
    Skips as (.extend pcr source) (.emptyMeasurement source.text)
  | missing {pcr : UInt8} {source : DataSource} {description : String} {issue : BootError}
    (hfetch : source.fetch as = .error issue) : Skips as (.event pcr source description) issue

theorem Skips.apply_eq (h : action.Skips m.artifacts issue) (actor : Actor) :
    action.apply m actor = (m, .ok (.skipped issue)) := by
  cases h with
  | empty hfetch hempty =>
    rw [apply, hfetch]
    exact if_pos hempty
  | missing hfetch => rw [apply, hfetch]

/-- How an action can end. It leaves the machine as it is unless it starts the module or measures. -/
inductive Ends (m : Machine) (action : Action) : Machine × Except BootError Outcome → Prop where
  | failed (e : BootError) : Ends m action (m, .error e)
  | skipped {issue : BootError} (h : action.Skips m.artifacts issue) :
    Ends m action (m, .ok (.skipped issue))
  | switched (flow : Flow) : Ends m action (m, .ok (.switched flow))
  | started (after : Machine) : Ends m action (after, .ok .done)
  | measured (after : Machine) (record : MeasuredData) : Ends m action (after, .ok (.measured record))

theorem ends_measure (m : Machine) (action : Action) (kind : EventKind) (pcr : UInt8) (bytes : ByteArray)
    (description : String) (record : MeasuredData) :
    action.Ends m (m.measure kind pcr bytes description record) := by
  obtain ⟨e, hfailed⟩ | ⟨_, _, _, -, -, -, -, htaken⟩ := m.measure_cases kind pcr bytes description record
  · rw [hfailed]
    exact .failed e
  · rw [htaken]
    exact .measured _ record

theorem ends_apply (m : Machine) (actor : Actor) (action : Action) :
    action.Ends m (action.apply m actor) := by
  cases action with
  | switchTo flow => exact .switched flow
  | panic message => exact .failed (.panic message)
  | initTpm locality =>
    rw [apply]
    cases hresult : (m.withTpm (·.initLazy locality actor.coords)).2 with
    | error e =>
      have hsame := Machine.withTpm_eq_self (fun _ _ => Tpm.initLazy_of_error) hresult
      dsimp only
      rw [hsame, hresult]
      exact .failed e
    | ok =>
      dsimp only
      rw [hresult]
      exact .started _
  | extend pcr source =>
    cases hfetch : source.fetch m.artifacts with
    | error e =>
      rw [apply, hfetch]
      exact .failed e
    | ok fetched =>
      obtain ⟨data, bytes⟩ := fetched
      by_cases hempty : bytes.isEmpty = true
      · have hskips : Skips m.artifacts (.extend pcr source) _ := .empty hfetch hempty
        rw [hskips.apply_eq]
        exact .skipped hskips
      · rw [apply, hfetch]
        dsimp only
        rw [if_neg hempty]
        exact ends_measure ..
  | event pcr source description =>
    cases hfetch : source.fetch m.artifacts with
    | error e =>
      have hskips : Skips m.artifacts (.event pcr source description) e := .missing hfetch
      rw [hskips.apply_eq]
      exact .skipped hskips
    | ok fetched =>
      rw [apply, hfetch]
      exact ends_measure ..

namespace Ends

variable {ended : Machine × Except BootError Outcome}

theorem eq_of_error {e : BootError} (h : action.Ends m ended) (hresult : ended.2 = .error e) :
    ended.1 = m := by
  cases h <;> cases hresult
  rfl

theorem eq_of_skipped (h : action.Ends m ended) (hresult : ended.2 = .ok (.skipped issue)) :
    ended.1 = m := by
  cases h <;> cases hresult
  rfl

theorem skips (h : action.Ends m ended) (hresult : ended.2 = .ok (.skipped issue)) :
    action.Skips m.artifacts issue := by
  cases h <;> cases hresult
  assumption

end Ends

/-- An action that fails, and one that is skipped, leaves all of the machine as it is: the artifacts, the
flow, what was measured, and the module with its PCR values, its locality and its logs. The actions that are
skipped are the extensions by no bytes and the events whose data cannot be found. No action at all changes
the artifacts. -/
theorem apply_untouched (m : Machine) (actor : Actor) (action : Action) :
    (∀ e, (action.apply m actor).2 = .error e → (action.apply m actor).1 = m) ∧
    (∀ issue, (action.apply m actor).2 = .ok (.skipped issue) → (action.apply m actor).1 = m) ∧
    (∀ issue, (action.apply m actor).2 = .ok (.skipped issue) ↔ action.Skips m.artifacts issue) ∧
    (action.apply m actor).1.artifacts = m.artifacts := by
  have hends := action.ends_apply m actor
  refine ⟨fun _ => hends.eq_of_error, fun _ => hends.eq_of_skipped, fun _ => ⟨hends.skips, ?_⟩,
    Machine.steady_artifacts m.artifacts (action.effect_apply m actor) rfl⟩
  intro hskips
  rw [hskips.apply_eq]

/-- A machine whose module has a bank that was never allocated: it takes the first commands of a measurement
and refuses those for this bank. -/
def halfAllocated : Machine :=
  { tpm := some
      { algorithms := [.sha1, .sha256], pcrs := PcrValues.allocate 24 [.sha1], locality := some 3 } }

theorem apply_untouched_halfAllocated :
    let refused := (extend 0 (.bytes (Bytes.replicate 4 7))).apply halfAllocated default
    let restarted := (initTpm 0).apply halfAllocated default
    let skipped := (event 0 (.probe .ibb) "boot block").apply halfAllocated default
    (refused.2 = .error (.tpm (.commandFailed 2 "Extend" (.slotNotInitialized 0 .sha256))) ∧
      refused.1 = halfAllocated) ∧
    (restarted.2 = .error (.tpm (.alreadyInitialized 3 0)) ∧ restarted.1 = halfAllocated) ∧
    skipped.2 = .ok (.skipped (.contract (.artifactMissing .biosImage))) ∧ skipped.1 = halfAllocated := by
  have hrefused : ((extend 0 (.bytes (Bytes.replicate 4 7))).apply halfAllocated default).2 =
      .error (.tpm (.commandFailed 2 "Extend" (.slotNotInitialized 0 .sha256))) :=
    (map_eq_error_iff (f := fun _ => ())).mp (by decide +kernel)
  have hrestarted : ((initTpm 0).apply halfAllocated default).2 =
      .error (.tpm (.alreadyInitialized 3 0)) := rfl
  have hmissing : (event 0 (.probe .ibb) "boot block").Skips halfAllocated.artifacts
      (.contract (.artifactMissing .biosImage)) := .missing rfl
  obtain ⟨-, hskip, hskips, -⟩ := apply_untouched halfAllocated default (event 0 (.probe .ibb) "boot block")
  have hskipped := (hskips _).mpr hmissing
  exact ⟨⟨hrefused, (apply_untouched halfAllocated default _).1 _ hrefused⟩,
    ⟨hrestarted, (apply_untouched halfAllocated default _).1 _ hrestarted⟩, hskipped, hskip _ hskipped⟩

end Action

end MeasuredBoot
