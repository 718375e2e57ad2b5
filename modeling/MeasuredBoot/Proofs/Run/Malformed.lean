import MeasuredBoot.Proofs.Firmware.Readable
import MeasuredBoot.Proofs.Firmware.TableImage
import MeasuredBoot.Proofs.Run.Platforms
import MeasuredBoot.Proofs.Run.Verdict

/-!
# Built-in flows on malformed firmware

A built-in flow that has an image and a snapshot of the registers, and a new module, can only meet problems
that the firmware causes: structures that are not there or not well-formed, registers that are not present,
and a flow that gives up. The exception is an entry of the Firmware Interface Table that points to a region of
the initial boot block outside the image, which nothing looks at before the bytes of the region are read.

* `BootError.OfFirmware`: the problems that the firmware causes;
* `Step.ofFirmware_platform`: what a platform prescribes meets no others, but for the boot block;
* `Step.allIssues_intel_of_astray`, `Step.ofFirmware_intel`: the two ways that the Intel flow can go;
* `Run.comesTo_of_catalogue`: the built-in flows that go that way, and the others;
* `Run.contract_or_ofFirmware`: they violate the contract exactly if an entry for the boot block is astray.
-/

namespace MeasuredBoot

variable {as : Artifacts} {image : BiosImage} {rs : Registers}

/-! ## Problems that the firmware causes -/

/-- Data is missing, or the flow gave up, or data is empty, which is not fatal. -/
def BootError.OfFirmware (fatal : Bool) : BootError → Prop
  | .source _ | .panic _ => True
  | .emptyMeasurement _ => fatal = false
  | .contract _ | .tpm _ | .chainMissing _ => False

/-- The firmware causes the issue. -/
def StepIssue.OfFirmware (issue : StepIssue) : Prop := issue.error.OfFirmware issue.fatal

/-- The firmware causes each problem of the step. -/
def Step.OfFirmware (as : Artifacts) (step : Step) : Prop := ∀ issue ∈ step.issues as, issue.OfFirmware

theorem BootError.OfFirmware.of_source {e : BootError} {fatal : Bool} (h : ∃ reason, e = .source reason) :
    e.OfFirmware fatal := by
  obtain ⟨reason, rfl⟩ := h
  trivial

/-- An issue that aborts a run is among its issues. -/
theorem RunStatus.exists_issue_of_aborted {issues : List StepIssue} {reason : BootError}
    (h : RunStatus.of issues = .aborted reason) :
    ∃ issue ∈ issues, issue.fatal = true ∧ issue.error = reason := by
  rw [RunStatus.of, StepIssue.failure?] at h
  cases hfind : issues.find? (·.fatal) with
  | none =>
    rw [hfind] at h
    cases h
  | some issue =>
    rw [hfind] at h
    cases h
    exact ⟨issue, List.mem_of_find?_eq_some hfind, List.find?_some hfind, rfl⟩

/-- The issues of actions are the problems that these meet. -/
theorem Action.problem_of_mem_issues {index : Nat} {actions : List Action} {issue : StepIssue}
    (h : issue ∈ Action.issues as index actions) :
    ∃ action ∈ actions, action.problem? as = some (issue.fatal, issue.error) := by
  induction actions generalizing index with
  | nil => cases h
  | cons action rest ih =>
    have hrest (h : issue ∈ Action.issues as (index + 1) rest) :
        ∃ action' ∈ action :: rest, action'.problem? as = some (issue.fatal, issue.error) := by
      obtain ⟨other, hother, hproblem⟩ := ih h
      exact ⟨other, List.mem_cons_of_mem action hother, hproblem⟩
    rw [Action.issues] at h
    split at h
    · exact hrest h
    · rename_i hproblem
      obtain rfl := List.mem_singleton.mp h
      exact ⟨action, List.mem_cons_self, hproblem⟩
    · rename_i hproblem
      obtain rfl | h := List.mem_cons.mp h
      · exact ⟨action, List.mem_cons_self, hproblem⟩
      · exact hrest h

theorem Action.ofFirmware_extend {pcr : UInt8} {source : DataSource} {fatal : Bool} {e : BootError}
    (hsource : ∀ e, source.fetch as = .error e → ∃ reason, e = .source reason)
    (h : (Action.extend pcr source).problem? as = some (fatal, e)) : e.OfFirmware fatal := by
  rw [Action.problem?] at h
  split at h
  · rename_i hfetch
    cases h
    exact .of_source (hsource _ hfetch)
  · split at h
    · cases h
      rfl
    · cases h

theorem Action.ofFirmware_event {pcr : UInt8} {source : DataSource} {description : String} {fatal : Bool}
    {e : BootError} (hsource : ∀ e, source.fetch as = .error e → ∃ reason, e = .source reason)
    (h : (Action.event pcr source description).problem? as = some (fatal, e)) : e.OfFirmware fatal := by
  rw [Action.problem?] at h
  split at h
  · rename_i hfetch
    cases h
    exact .of_source (hsource _ hfetch)
  · cases h

namespace Step

variable {step : Step}

/-- The problems of a step are that its actions cannot be told, and those of the actions. -/
theorem ofFirmware_of_actions (herror : ∀ e, step.actions as = .error e → e.OfFirmware true)
    (hactions : ∀ actions, step.actions as = .ok actions → ∀ action ∈ actions, ∀ fatal e,
      action.problem? as = some (fatal, e) → e.OfFirmware fatal) : step.OfFirmware as := by
  intro issue hissue
  rw [Step.issues] at hissue
  cases h : step.actions as with
  | error e =>
    rw [h] at hissue
    obtain rfl := List.mem_singleton.mp hissue
    exact herror e h
  | ok actions =>
    rw [h] at hissue
    obtain ⟨action, haction, hproblem⟩ := Action.problem_of_mem_issues hissue
    exact hactions actions h action haction _ _ hproblem

theorem ofFirmware_of_extend {pcr : UInt8} {source : DataSource}
    (hactions : step.actions as = .ok [.extend pcr source])
    (hsource : ∀ e, source.fetch as = .error e → ∃ reason, e = .source reason) : step.OfFirmware as := by
  refine ofFirmware_of_actions (fun e he => nomatch hactions.symm.trans he) ?_
  intro actions hsame action haction fatal e hproblem
  cases hactions.symm.trans hsame
  obtain rfl := List.mem_singleton.mp haction
  exact Action.ofFirmware_extend hsource hproblem

theorem ofFirmware_panic (as : Artifacts) (message : String) : OfFirmware as (.panic message) := by
  refine ofFirmware_of_actions nofun fun actions hactions action haction fatal e hproblem => ?_
  cases hactions
  obtain rfl := List.mem_singleton.mp haction
  cases hproblem
  trivial

theorem ofFirmware_guarded {condition : Condition} (h : step.OfFirmware as) :
    OfFirmware as (.guarded condition step) := by
  intro issue hissue
  rw [Step.issues] at hissue
  cases hholds : condition.holds as with
  | true =>
    rw [actions_of_holds hholds] at hissue
    exact h issue hissue
  | false =>
    rw [actions_of_not_holds hholds] at hissue
    cases hissue

/-- What a platform prescribes meets the problems that the firmware causes, unless it is the boot block. -/
theorem ofFirmware_platform (himage : as.image = some image) (hsnapshot : as.snapshot = some rs)
    {p : PlatformStep} (hibb : p = .ibb → ∀ fit, Fit.read image = .ok fit → ¬fit.Astray image) :
    OfFirmware as (.platform p) := by
  have hprobe (probe : Probe) (hpointer : probe ≠ .fitPointer)
      (hblock : probe = .ibb → ∀ fit, Fit.read image = .ok fit → ¬fit.Astray image) (e : BootError)
      (h : DataSource.fetch (.probe probe) as = .error e) : ∃ reason, e = .source reason :=
    DataSource.source_of_fetch_probe himage hsnapshot hpointer hblock h
  cases p with
  | biosDirectory =>
    refine ofFirmware_of_actions (fun e he => ?_) fun actions hactions action haction fatal e hproblem => ?_
    · obtain h | ⟨_, -, h⟩ := bind_eq_error_iff.mp he
      · exact .of_source (Probe.source_of_locate_error himage hsnapshot h)
      · cases h
    · obtain ⟨refs, hrefs, h⟩ := exists_ok_of_bind hactions
      cases h
      obtain ⟨r, hr, haction⟩ := List.mem_flatMap.mp haction
      obtain ⟨range, hrange, rfl⟩ := List.mem_map.mp haction
      obtain ⟨fetched, hfetched⟩ := BiosDirectory.exists_fetch_of_locate himage hrefs hr hrange
      exact Action.ofFirmware_extend (fun e hfetch => nomatch hfetched.symm.trans hfetch) hproblem
  | embeddedFirmware =>
    refine ofFirmware_of_actions nofun fun actions hactions action haction fatal e hproblem => ?_
    cases hactions
    obtain rfl := List.mem_singleton.mp haction
    exact Action.ofFirmware_event (hprobe .embeddedFirmware nofun nofun) hproblem
  | pcr0Data => exact ofFirmware_of_extend rfl (hprobe .pcr0Data nofun nofun)
  | ibb => exact ofFirmware_of_extend rfl (hprobe .ibb nofun fun _ => hibb rfl)
  | vendorVersion => exact ofFirmware_of_extend rfl (hprobe .vendorVersion nofun nofun)

/-- The first steps that are taken decide on the issues of all of them. -/
theorem ofFirmware_allIssues {steps : List Step} (h : ∀ step ∈ steps, step.OfFirmware as) :
    ∀ issue ∈ allIssues as steps, issue.OfFirmware := by
  induction steps with
  | nil => exact List.forall_mem_nil _
  | cons step rest ih =>
    obtain ⟨hstep, hrest⟩ := List.forall_mem_cons.mp h
    rw [allIssues]
    split
    · exact hstep
    · exact List.forall_mem_append.mpr ⟨hstep, ih hrest⟩

/-! ## Regular steps -/

theorem regular_platform (as : Artifacts) (p : PlatformStep) : Regular as (.platform p) := by
  intro actions hactions action hmem
  obtain ⟨source, rfl⟩ | ⟨source, description, rfl⟩ := PlatformStep.cases_of_mem hactions hmem
  · show (0 : UInt8).toNat < Tpm.pcrCount
    decide
  · trivial

theorem regular_panic (as : Artifacts) (message : String) : Regular as (.panic message) := by
  intro actions hactions action hmem
  cases hactions
  obtain rfl := List.mem_singleton.mp hmem
  trivial

theorem regular_guarded {condition : Condition} (h : step.Regular as) : Regular as (.guarded condition step) :=
  fun actions hactions action hmem => h actions (actions_of_guarded hactions hmem) action hmem

end Step

/-! ## The steps that measure -/

namespace Step

variable {step : Step} {source : DataSource} {pcr : UInt8} {rest : List Step}

theorem issues_of_fetch_ok {data : Data} {bytes : ByteArray}
    (hactions : step.actions as = .ok [.extend pcr source]) (hfetch : source.fetch as = .ok (data, bytes))
    (hne : bytes.isEmpty = false) : step.issues as = [] := by
  simp only [Step.issues, hactions, Action.issues, Action.problem?, hfetch, hne, Bool.false_eq_true,
    ↓reduceIte]

theorem issues_of_fetch_error {e : BootError} (hactions : step.actions as = .ok [.extend pcr source])
    (hfetch : source.fetch as = .error e) : step.issues as = [⟨some 0, true, e⟩] := by
  simp only [Step.issues, hactions, Action.issues, Action.problem?, hfetch]

theorem allIssues_of_issues_nil (h : step.issues as = []) :
    allIssues as (step :: rest) = allIssues as rest := by
  rw [allIssues, h]
  rfl

theorem allIssues_of_fatal {index : Option Nat} {e : BootError} (h : step.issues as = [⟨index, true, e⟩]) :
    allIssues as (step :: rest) = [⟨index, true, e⟩] := by
  rw [allIssues, h]
  rfl

/-- An entry that is astray is met after the policy status was measured. -/
theorem allIssues_intel_of_astray (himage : as.image = some image) (hsnapshot : as.snapshot = some rs)
    (hstatus : (rs.get? .acmPolicyStatus).isSome = true) {fit : Fit} (hfit : Fit.read image = .ok fit)
    (hastray : fit.Astray image) :
    ∃ e region, fit.firstAstray? image = some e ∧ e.dataRange? = some region ∧
      allIssues as Flow.intel.steps.tail =
        [⟨some 0, true, .contract (.unresolvableRange .physMem .biosImage region image.size)⟩] := by
  obtain ⟨data, bytes, hfetch⟩ := DataSource.exists_fetch_pcr0Data himage hsnapshot hstatus hfit
  have hfirst : issues as (.platform .pcr0Data) = [] :=
    issues_of_fetch_ok rfl hfetch (DataSource.isEmpty_of_fetch_pcr0Data hfetch)
  obtain ⟨e, region, he, hregion, hviolation⟩ := DataSource.contract_of_fetch_ibb himage hfit hastray
  refine ⟨e, region, he, hregion, (allIssues_of_issues_nil hfirst).trans ?_⟩
  exact allIssues_of_fatal (issues_of_fetch_error rfl hviolation)

/-- Otherwise the firmware causes all problems. -/
theorem ofFirmware_intel (himage : as.image = some image) (hsnapshot : as.snapshot = some rs)
    (h : (rs.get? .acmPolicyStatus).isSome = true → ∀ fit, Fit.read image = .ok fit → ¬fit.Astray image) :
    ∀ issue ∈ allIssues as Flow.intel.steps.tail, issue.OfFirmware := by
  have hfirst : OfFirmware as (.platform .pcr0Data) := ofFirmware_platform himage hsnapshot nofun
  cases hfetch : DataSource.fetch (.probe .pcr0Data) as with
  | ok fetched =>
    obtain ⟨-, rs', status, -, -, hsnapshot', hstatus, -, -⟩ := DataSource.of_fetch_pcr0Data hfetch
    obtain rfl := Option.some.inj (hsnapshot.symm.trans hsnapshot')
    have hsecond : OfFirmware as (.platform .ibb) :=
      ofFirmware_platform himage hsnapshot fun _ => h (hstatus ▸ rfl)
    exact ofFirmware_allIssues (List.forall_mem_cons.mpr ⟨hfirst, List.forall_mem_singleton.mpr hsecond⟩)
  | error e =>
    -- the boot block is not reached
    have hissues : issues as (.platform .pcr0Data) = [⟨some 0, true, e⟩] := issues_of_fetch_error rfl hfetch
    have hall : allIssues as Flow.intel.steps.tail = issues as (.platform .pcr0Data) :=
      (allIssues_of_fatal hissues).trans hissues.symm
    exact hall ▸ hfirst

theorem ofFirmware_amd (himage : as.image = some image) (hsnapshot : as.snapshot = some rs) :
    ∀ issue ∈ allIssues as Flow.amd.steps.tail, issue.OfFirmware := by
  have hefs : OfFirmware as (.platform .embeddedFirmware) := ofFirmware_platform himage hsnapshot nofun
  have htables : OfFirmware as (.platform .biosDirectory) := ofFirmware_platform himage hsnapshot nofun
  exact ofFirmware_allIssues (List.forall_mem_cons.mpr ⟨hefs, List.forall_mem_singleton.mpr htables⟩)

theorem ofFirmware_ocpPei (himage : as.image = some image) (hsnapshot : as.snapshot = some rs) :
    ∀ issue ∈ allIssues as Flow.ocpPei.steps.tail, issue.OfFirmware := by
  have hmarker : OfFirmware as (.platform .vendorVersion) := ofFirmware_platform himage hsnapshot nofun
  exact ofFirmware_allIssues (List.forall_mem_cons.mpr ⟨ofFirmware_guarded hmarker,
    List.forall_mem_singleton.mpr (ofFirmware_guarded (ofFirmware_panic _ _))⟩)

end Step

/-! ## The built-in flows -/

/-- The Intel flow gets to the boot block, and an entry for it is astray. -/
def BootBlockAstray (image : BiosImage) (rs : Registers) : Prop :=
  (rs.get? .acmPolicyStatus).isSome = true ∧ ∃ fit, Fit.read image = .ok fit ∧ fit.Astray image

namespace Run

variable {m : Machine} {run : Run} {algs : List Algorithm} {built : Tpm} {flow : Flow}

/-- The run comes to problems that the firmware causes, and to no others. -/
def ComesToFirmware (run : Run) : Prop := ∃ issues, run.ComesTo issues ∧ ∀ issue ∈ issues, issue.OfFirmware

namespace At

theorem comesTo_platform {name : String} {locality : UInt8} (platform : List PlatformStep)
    (h : run.At m (.mk name (.initTpm locality :: platform.map .platform)) 0) (hnew : built.IsNew algs)
    (hm : m.tpm = some built) : run.ComesTo (Step.allIssues m.artifacts (platform.map .platform)) :=
  h.comesTo_started hnew hm (List.forall_mem_map.mpr fun p _ => Step.regular_platform m.artifacts p)

theorem comesTo_intel (h : run.At m Flow.intel 0) (hnew : built.IsNew algs) (hm : m.tpm = some built) :
    run.ComesTo (Step.allIssues m.artifacts Flow.intel.steps.tail) :=
  comesTo_platform [.pcr0Data, .ibb] h hnew hm

theorem comesTo_amd (h : run.At m Flow.amd 0) (hnew : built.IsNew algs) (hm : m.tpm = some built) :
    run.ComesTo (Step.allIssues m.artifacts Flow.amd.steps.tail) :=
  comesTo_platform [.embeddedFirmware, .biosDirectory] h hnew hm

theorem comesTo_ocpPei (h : run.At m Flow.ocpPei 0) (hnew : built.IsNew algs) (hm : m.tpm = some built) :
    run.ComesTo (Step.allIssues m.artifacts Flow.ocpPei.steps.tail) :=
  h.comesTo_started hnew hm (List.forall_mem_cons.mpr
    ⟨Step.regular_guarded (Step.regular_platform _ _),
      List.forall_mem_singleton.mpr (Step.regular_guarded (Step.regular_panic _ _))⟩)

/-- The root flow gets to the flow of Intel if the image has a table. -/
theorem comesTo_root (h : run.At m Flow.root 0) (himage : m.artifacts.image = some image)
    (hsnapshot : m.artifacts.snapshot = some rs) (hnew : built.IsNew algs) (hm : m.tpm = some built) :
    run.ComesTo (Step.allIssues m.artifacts Flow.intel.steps.tail) ∨
      (∀ fit, Fit.read image ≠ .ok fit) ∧ run.ComesToFirmware := by
  cases hfit : Condition.fitPresent.holds m.artifacts with
  | true => exact .inl (h.comesTo_switch rfl hfit fun next hat => hat.comesTo_intel hnew hm)
  | false =>
    refine .inr ⟨fun fit hread => ?_, ?_⟩
    · have hfound := Condition.imageHas_eq_true_iff.mpr ⟨image, fit, himage, hread⟩
      exact Bool.false_ne_true (hfit.symm.trans hfound)
    · cases hefs : Condition.embeddedFirmwarePresent.holds m.artifacts with
      | true =>
        refine ⟨_, ?_, Step.ofFirmware_amd himage hsnapshot⟩
        exact h.comesTo_skip rfl hfit fun next hat =>
          hat.comesTo_switch rfl hefs fun last hlast => hlast.comesTo_amd hnew hm
      | false =>
        have hpanic : run.ComesTo [⟨some 0, true, .panic "unknown flow: neither AMD nor Intel"⟩] :=
          h.comesTo_skip rfl hfit fun next hat =>
            hat.comesTo_skip rfl hefs fun last hlast => hlast.comesTo_panic rfl
        exact ⟨_, hpanic, List.forall_mem_singleton.mpr trivial⟩

end At

/-- A built-in flow measures what the Intel flow does, or comes to problems that the firmware causes. -/
theorem comesTo_of_catalogue (himage : m.artifacts.image = some image)
    (hsnapshot : m.artifacts.snapshot = some rs) (hnew : built.IsNew algs) (hm : m.tpm = some built)
    (hflow : flow ∈ Flow.catalogue) :
    ((flow = .root ∨ flow = .intel) ∧
      (withFlow m flow).ComesTo (Step.allIssues m.artifacts Flow.intel.steps.tail)) ∨
    (flow = .root ∨ flow = .intel → ∀ fit, Fit.read image ≠ .ok fit) ∧
      (withFlow m flow).ComesToFirmware := by
  have hat : (withFlow m flow).At { m with flow := some flow } flow 0 := ⟨rfl, rfl, rfl, rfl⟩
  simp only [Flow.catalogue, List.mem_cons, List.not_mem_nil, or_false] at hflow
  obtain rfl | rfl | rfl | rfl := hflow
  · obtain hintel | ⟨hnone, hfirmware⟩ := hat.comesTo_root himage hsnapshot hnew hm
    · exact .inl ⟨.inl rfl, hintel⟩
    · exact .inr ⟨fun _ => hnone, hfirmware⟩
  · exact .inl ⟨.inr rfl, hat.comesTo_intel hnew hm⟩
  · refine .inr ⟨?_, _, hat.comesTo_amd hnew hm, Step.ofFirmware_amd himage hsnapshot⟩
    rintro (h | h) <;> exact absurd (congrArg Flow.name h) (by decide)
  · refine .inr ⟨?_, _, hat.comesTo_ocpPei hnew hm, Step.ofFirmware_ocpPei himage hsnapshot⟩
    rintro (h | h) <;> exact absurd (congrArg Flow.name h) (by decide)

/-- A built-in flow that has an image and a snapshot of the registers, and a new module, only meets problems
that the firmware causes, and is only aborted by missing data or because it gives up. The exception is an
entry for the boot block that is astray: the region of the first such entry is not found in the image, and the
run is aborted for a violation of the contract. -/
theorem contract_or_ofFirmware (himage : m.artifacts.image = some image)
    (hsnapshot : m.artifacts.snapshot = some rs) (hnew : built.IsNew algs) (hm : m.tpm = some built)
    (hflow : flow ∈ Flow.catalogue) :
    ((flow = .root ∨ flow = .intel) ∧ BootBlockAstray image rs →
      ∃ fit e region, Fit.read image = .ok fit ∧ fit.firstAstray? image = some e ∧
        e.dataRange? = some region ∧
        (withFlow m flow).finish.issues =
          [⟨some 0, true, .contract (.unresolvableRange .physMem .biosImage region image.size)⟩] ∧
        (withFlow m flow).finish.status =
          .aborted (.contract (.unresolvableRange .physMem .biosImage region image.size))) ∧
    (¬((flow = .root ∨ flow = .intel) ∧ BootBlockAstray image rs) →
      (∀ issue ∈ (withFlow m flow).finish.issues, issue.OfFirmware) ∧
      ∀ reason, (withFlow m flow).finish.status = .aborted reason → reason.OfFirmware true) := by
  have hcatalogue := comesTo_of_catalogue himage hsnapshot hnew hm hflow
  constructor
  · rintro ⟨hreaches, hstatus, fit, hfit, hastray⟩
    obtain ⟨-, h⟩ | ⟨hnone, -⟩ := hcatalogue
    · obtain ⟨e, region, he, hregion, hissues⟩ :=
        Step.allIssues_intel_of_astray himage hsnapshot hstatus hfit hastray
      rw [hissues] at h
      exact ⟨fit, e, region, hfit, he, hregion, h.issues_eq, h.status_eq⟩
    · exact absurd hfit (hnone hreaches fit)
  · intro hnot
    have hfirmware : (withFlow m flow).ComesToFirmware := by
      obtain ⟨hreaches, h⟩ | ⟨-, h⟩ := hcatalogue
      · exact ⟨_, h, Step.ofFirmware_intel himage hsnapshot fun hstatus fit hfit hastray =>
          hnot ⟨hreaches, hstatus, fit, hfit, hastray⟩⟩
      · exact h
    obtain ⟨issues, h, hall⟩ := hfirmware
    refine ⟨h.issues_eq ▸ hall, fun reason haborted => ?_⟩
    obtain ⟨issue, hissue, hfatal, rfl⟩ := RunStatus.exists_issue_of_aborted (h.status_eq.symm.trans haborted)
    exact hfatal ▸ hall issue hissue

/-- The root flow violates the contract, and that of AMD does not. -/
theorem contract_or_ofFirmware_strayMachine :
    (withFlow strayMachine Flow.root).finish.status =
      .aborted (.contract (.unresolvableRange .physMem .biosImage ⟨0x1000, 16⟩ 128)) ∧
    ∀ issue ∈ (withFlow strayMachine Flow.amd).finish.issues, issue.OfFirmware := by
  have hnew : Tpm.IsNew Tpm.defaultAlgorithms Tpm.fresh := .inl ⟨rfl, rfl⟩
  have hastray : BootBlockAstray strayImage { acmPolicyStatus := some 0x1032980E5B } :=
    ⟨rfl, _, TableLayout.stray.read_image, by decide +kernel⟩
  have hsize : strayImage.size = 128 := TableLayout.stray.size_image
  obtain ⟨hroot, -⟩ := contract_or_ofFirmware (m := strayMachine) rfl rfl hnew rfl
    (show Flow.root ∈ Flow.catalogue from .head _)
  obtain ⟨-, hamd⟩ := contract_or_ofFirmware (m := strayMachine) rfl rfl hnew rfl
    (show Flow.amd ∈ Flow.catalogue from .tail _ (.tail _ (.head _)))
  obtain ⟨fit, e, region, hfit, he, hregion, -, hstatus⟩ := hroot ⟨.inl rfl, hastray⟩
  cases TableLayout.stray.read_image.symm.trans hfit
  obtain rfl := List.mem_singleton.mp (List.mem_of_find?_eq_some he)
  cases hregion
  rw [hsize] at hstatus
  refine ⟨hstatus, (hamd ?_).1⟩
  rintro ⟨h | h, -⟩ <;> exact absurd (congrArg Flow.name h) (by decide)

end Run

end MeasuredBoot
