import MeasuredBoot.Proofs.Run.Measuring

/-!
# The runs of the built-in flows

The root flow gets to the flow of a platform by its first step or its second one, or does not finish
(`Run.At.platform_of_root`). The flows of the platforms start the module and then measure.

* `Artifacts.Finds`, `Condition.imageHas_eq_true_iff`: what the root flow looks for;
* `Run.At.intel_of_root`, `Run.At.amd_of_root`: where a run that finishes in the flow of a platform got there;
* `Run.At.log_of_intel`: the Intel flow measures twice.
-/

namespace MeasuredBoot

/-- Something is found in the image. -/
def Artifacts.Finds {α : Type} (as : Artifacts) (find : BiosImage → Except SourceError α) : Prop :=
  ∃ image found, as.image = some image ∧ find image = .ok found

theorem Artifacts.not_finds_of_error {α : Type} {as : Artifacts} {image : BiosImage}
    {find : BiosImage → Except SourceError α} {e : SourceError} (himage : as.image = some image)
    (h : find image = .error e) : ¬as.Finds find := by
  rintro ⟨image', found, himage', hfound⟩
  obtain rfl := Option.some.inj (himage.symm.trans himage')
  cases h.symm.trans hfound

theorem Condition.imageHas_eq_true_iff {α : Type} {as : Artifacts}
    {find : BiosImage → Except SourceError α} : imageHas as find = true ↔ as.Finds find := by
  rw [imageHas]
  cases himage : as.image with
  | none =>
    refine iff_of_false Bool.false_ne_true ?_
    rintro ⟨image, _, h, -⟩
    cases himage.symm.trans h
  | some image =>
    constructor
    · intro h
      obtain ⟨found, hfound⟩ := exists_ok_of_isOk h
      exact ⟨image, found, himage, hfound⟩
    · rintro ⟨image', found, himage', hfound⟩
      cases himage.symm.trans himage'
      dsimp only
      rw [hfound]
      rfl

theorem Condition.imageHas_eq_false {α : Type} {as : Artifacts} {find : BiosImage → Except SourceError α}
    (h : ¬as.Finds find) : imageHas as find = false :=
  Bool.eq_false_iff.mpr (mt imageHas_eq_true_iff.mp h)

/-- A flow that starts the module and then does what a platform prescribes. -/
theorem Flow.stays_of_platform (name : String) (locality : UInt8) (platform : List PlatformStep) :
    (mk name (.initTpm locality :: platform.map .platform)).Stays := by
  intro step hstep as actions hactions other hmem
  obtain rfl | hstep := List.mem_cons.mp hstep
  · cases hactions
    simp only [List.mem_singleton, reduceCtorEq] at hmem
  · obtain ⟨p, -, rfl⟩ := List.mem_map.mp hstep
    exact PlatformStep.not_switchTo hactions hmem

theorem Flow.intel_stays : intel.Stays := stays_of_platform "intel" 3 [.pcr0Data, .ibb]

theorem Flow.amd_stays : amd.Stays := stays_of_platform "amd" 0 [.embeddedFirmware, .biosDirectory]

theorem Flow.intel_ne_amd : intel ≠ amd := fun h => absurd (congrArg Flow.name h) (by decide)

/-- What a platform prescribes is to be measured into PCR 0. -/
theorem PlatformStep.cases_of_mem {as : Artifacts} {p : PlatformStep} {actions : List Action} {action : Action}
    (hactions : p.actions as = .ok actions) (hmem : action ∈ actions) :
    (∃ source, action = .extend 0 source) ∨ ∃ source description, action = .event 0 source description := by
  cases p with
  | biosDirectory =>
    obtain ⟨refs, -, h⟩ := exists_ok_of_bind hactions
    cases h
    obtain ⟨r, -, hmem⟩ := List.mem_flatMap.mp hmem
    obtain ⟨range, -, rfl⟩ := List.mem_map.mp hmem
    exact .inl ⟨_, rfl⟩
  | pcr0Data | ibb | vendorVersion =>
    cases hactions
    exact .inl ⟨_, List.mem_singleton.mp hmem⟩
  | embeddedFirmware =>
    cases hactions
    exact .inr ⟨_, _, List.mem_singleton.mp hmem⟩

theorem Step.measuring_platform (as : Artifacts) (p : PlatformStep) : Measuring as (.platform p) := by
  intro actions hactions action hmem
  obtain ⟨source, rfl⟩ | ⟨source, description, rfl⟩ := PlatformStep.cases_of_mem hactions hmem
  · trivial
  · trivial

theorem Step.measuring_platforms (as : Artifacts) (ps : List PlatformStep) :
    ∀ step ∈ ps.map Step.platform, step.Measuring as :=
  List.forall_mem_map.mpr fun p _ => measuring_platform as p

theorem Step.measuring_panic (as : Artifacts) (message : String) : Measuring as (.panic message) := by
  intro actions hactions action hmem
  cases hactions
  obtain rfl := List.mem_singleton.mp hmem
  trivial

/-- The actions that are guarded by a condition are those of the step, if there are any. -/
theorem Step.actions_of_guarded {as : Artifacts} {condition : Condition} {step : Step} {actions : List Action}
    {action : Action} (h : (guarded condition step).actions as = .ok actions) (hmem : action ∈ actions) :
    step.actions as = .ok actions := by
  cases hholds : condition.holds as with
  | true => exact (actions_of_holds hholds).symm.trans h
  | false =>
    cases (actions_of_not_holds hholds).symm.trans h
    cases hmem

theorem Step.measuring_guarded {as : Artifacts} {condition : Condition} {step : Step}
    (h : step.Measuring as) : Measuring as (.guarded condition step) :=
  fun actions hactions action hmem => h actions (actions_of_guarded hactions hmem) action hmem

namespace Run.At

variable {run : Run} {m : Machine}

/-- A step that switches to another flow if a condition holds. -/
theorem switch {flow other : Flow} {index : Nat} {condition : Condition} (h : run.At m flow index)
    (hstep : flow.steps[index]? = some (.guarded condition (.switchTo other)))
    (hholds : condition.holds m.artifacts = true) (hfinished : run.finish.status = .finished) :
    ∃ next : Run, run.finish = next.finish ∧ next.At { m with flow := some other } other 0 := by
  obtain ⟨actor, after, outcome, happly, next, hnext, hmoves⟩ :=
    h.single hstep (Step.actions_of_holds hholds) hfinished
  cases happly
  exact ⟨next, hnext, hmoves⟩

/-- A step whose condition does not hold. -/
theorem skip {flow : Flow} {index : Nat} {condition : Condition} {step : Step} (h : run.At m flow index)
    (hstep : flow.steps[index]? = some (.guarded condition step))
    (hholds : condition.holds m.artifacts = false) (hfinished : run.finish.status = .finished) :
    ∃ next : Run, run.finish = next.finish ∧ next.At m flow (index + 1) :=
  h.nothing hstep (Step.actions_of_not_holds hholds) hfinished

/-- A run of the root flow that finishes gets to the flow of a platform, and stays there. -/
theorem platform_of_root (h : run.At m Flow.root 0) (hfinished : run.finish.status = .finished) :
    (∃ next : Run, run.finish = next.finish ∧
      next.At { m with flow := some Flow.intel } Flow.intel 0 ∧
      run.finish.machine.flow = some Flow.intel) ∨
    ∃ next : Run, run.finish = next.finish ∧
      next.At { m with flow := some Flow.amd } Flow.amd 0 ∧
      run.finish.machine.flow = some Flow.amd := by
  cases hfit : Condition.fitPresent.holds m.artifacts with
  | true =>
    obtain ⟨next, hnext, hat⟩ := h.switch rfl hfit hfinished
    refine .inl ⟨next, hnext, hat, ?_⟩
    rw [hnext]
    exact Flow.intel_stays.flow_finish (hat.machine_eq ▸ rfl)
  | false =>
    obtain ⟨second, hsecond, h⟩ := h.skip rfl hfit hfinished
    rw [hsecond] at hfinished ⊢
    cases hefs : Condition.embeddedFirmwarePresent.holds m.artifacts with
    | true =>
      obtain ⟨next, hnext, hat⟩ := h.switch rfl hefs hfinished
      refine .inr ⟨next, hnext, hat, ?_⟩
      rw [hnext]
      exact Flow.amd_stays.flow_finish (hat.machine_eq ▸ rfl)
    | false =>
      -- the last step aborts the boot
      exfalso
      obtain ⟨third, hthird, h⟩ := h.skip rfl hefs hfinished
      obtain ⟨actor, after, outcome, happly, -⟩ := h.single rfl rfl (hthird ▸ hfinished)
      cases happly

theorem flow_of_fit (h : run.At m Flow.root 0) (hfit : Condition.fitPresent.holds m.artifacts = true)
    (hfinished : run.finish.status = .finished) : run.finish.machine.flow = some Flow.intel := by
  obtain ⟨next, hnext, hat⟩ := h.switch rfl hfit hfinished
  rw [hnext]
  exact Flow.intel_stays.flow_finish (hat.machine_eq ▸ rfl)

/-- A run of the root flow that finishes in the Intel flow got there at its start. -/
theorem intel_of_root (h : run.At m Flow.root 0) (hfinished : run.finish.status = .finished)
    (hintel : run.finish.machine.flow = some Flow.intel) :
    ∃ next : Run, run.finish = next.finish ∧
      next.At { m with flow := some Flow.intel } Flow.intel 0 := by
  obtain ⟨next, hnext, hat, -⟩ | ⟨-, -, -, hamd⟩ := h.platform_of_root hfinished
  · exact ⟨next, hnext, hat⟩
  · exact absurd (Option.some.inj (hintel.symm.trans hamd)) Flow.intel_ne_amd

theorem amd_of_root (h : run.At m Flow.root 0) (hfinished : run.finish.status = .finished)
    (hamd : run.finish.machine.flow = some Flow.amd) :
    ∃ next : Run, run.finish = next.finish ∧ next.At { m with flow := some Flow.amd } Flow.amd 0 := by
  obtain ⟨-, -, -, hintel⟩ | ⟨next, hnext, hat, -⟩ := h.platform_of_root hfinished
  · exact absurd (Option.some.inj (hintel.symm.trans hamd)) Flow.intel_ne_amd
  · exact ⟨next, hnext, hat⟩

/-- The Intel flow, of a machine that logged nothing yet, logs the extensions by two probes. -/
theorem log_of_intel {as : Artifacts} {algs : List Algorithm} (h : run.At m Flow.intel 0)
    (hfinished : run.finish.status = .finished) (hbooked : m.Booked as algs) (hlog : m.log = []) :
    ∃ actor actor' data data' bytes bytes',
      DataSource.fetch (.probe .pcr0Data) as = .ok (data, bytes) ∧
      DataSource.fetch (.probe .ibb) as = .ok (data', bytes') ∧
      run.finish.machine.log = Action.extensions algs actor 0 (.probe .pcr0Data) data bytes ++
        Action.extensions algs actor' 0 (.probe .ibb) data' bytes' := by
  have hmeasuring := Step.measuring_platforms as [.pcr0Data, .ibb]
  obtain ⟨actions, events, tpm, hactions, hlogs, htpm, -, hevents, -⟩ :=
    h.pcrValue_finish hfinished hmeasuring ⟨hbooked, rfl, hlog⟩
  cases hactions
  obtain ⟨_, _, hfirst, hrest, rfl⟩ := List.forall₂_cons_left_iff.mp hlogs
  obtain ⟨_, _, hsecond, hnil, rfl⟩ := List.forall₂_cons_left_iff.mp hrest
  cases hnil
  cases hfirst with
  | extend actor hfetch =>
    cases hsecond with
    | extend actor' hfetch' =>
      refine ⟨actor, actor', _, _, _, _, hfetch, hfetch', ?_⟩
      rw [Machine.log_of_tpm htpm, hevents, List.flatten_cons, List.flatten_cons, List.flatten_nil,
        List.append_nil]

end Run.At

end MeasuredBoot
