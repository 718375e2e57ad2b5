import MeasuredBoot.Proofs.Firmware.Flash
import MeasuredBoot.Proofs.Run.Malformed

/-!
# What the built-in flows measure

The PCR values after a run of a built-in flow that finishes, in terms of the image and the registers. PCR 0
is extended by pieces of data, and the other PCRs keep their initial values (`Tpm.HasMeasured`).

* `Run.At.measured_of_intel`: the policy status with the Firmware Interface Table, and the initial boot block;
* `Run.At.measured_of_amd`: the BIOS directory tables, with the Embedded Firmware Structure logged;
* `Run.At.measured_of_ocpPei`: the marker of the vendor version;
* `Step.allIssues_amd`: with tables that are found, the AMD flow meets no problem;
* `Run.finishesIn_of_finished`, `Run.finishesIn_amd`: where the root flow finishes;
* `Run.pcrValues_of_flow`: the runs from the start, with a new module.
-/

namespace MeasuredBoot

/-! ## The values of a bank -/

/-- The values of a bank: pieces of data make that of PCR 0 of its initial value at a locality, and the other
PCRs have their initial values. -/
structure Tpm.HasMeasured (tpm : Tpm) (alg : Algorithm) (locality : UInt8) (payloads : List ByteArray) :
    Prop where
  pcr_zero : ∃ initial value, alg.initialValue 0 locality = .ok initial ∧
    alg.measureAll initial payloads = .ok value ∧ tpm.pcrValue 0 alg = .ok value
  others : ∀ pcr : UInt8, 0 < pcr.toNat → pcr.toNat < Tpm.pcrCount →
    ∃ initial, alg.initialValue pcr locality = .ok initial ∧ tpm.pcrValue pcr alg = .ok initial

/-- The events of a bank that came without an extension, in order. -/
def Tpm.informational (tpm : Tpm) (alg : Algorithm) : List Event :=
  tpm.eventLog.filter fun e => e.alg = alg ∧ e.kind = .informational

variable {as : Artifacts} {algs : List Algorithm} {alg : Algorithm} {m : Machine} {run : Run}
variable {locality : Option UInt8} {image : BiosImage} {tables : List BiosDirectory}

namespace Action

theorem payloads_eq_nil {pcr : UInt8} {action : Action} (h : ∀ source, action ≠ .extend pcr source) :
    action.payloads as pcr = [] := by
  cases action with
  | extend other source =>
    have hne : other ≠ pcr := fun hsame => h source (hsame ▸ rfl)
    rw [payloads]
    split
    · exact if_neg fun hboth => hne hboth.1
    · rfl
  | switchTo | panic | initTpm | event => rfl

theorem payloads_extend {pcr : UInt8} {source : DataSource} {data : Data} {bytes : ByteArray}
    (h : source.fetch as = .ok (data, bytes)) :
    (extend pcr source).payloads as pcr = if bytes.isEmpty then [] else [bytes] := by
  rw [payloads, h]
  dsimp only
  cases bytes.isEmpty with
  | true => exact if_neg fun hboth => Bool.noConfusion hboth.2
  | false => exact if_pos ⟨rfl, rfl⟩

/-- The events of extensions. -/
theorem kind_of_logs {actions : List Action} {events : List (List Event)}
    (h : List.Forall₂ (Logs as algs) actions events)
    (hextend : ∀ action ∈ actions, ∃ pcr source, action = .extend pcr source) :
    ∀ e ∈ events.flatten, e.kind = .extend := by
  induction h with
  | nil => exact fun e he => absurd he List.not_mem_nil
  | @cons action _ first _ hfirst _ ih =>
    obtain ⟨⟨pcr, source, rfl⟩, hrest⟩ := List.forall_mem_cons.mp hextend
    rw [List.flatten_cons]
    refine List.forall_mem_append.mpr ⟨fun e he => ?_, ih hrest⟩
    cases hfirst with
    | extend actor hfetch =>
      rw [extensions] at he
      split at he
      · cases he
      · obtain ⟨alg, -, rfl⟩ := List.mem_map.mp he
        rfl

/-- The event of a bank about data that was logged alone. -/
theorem informational_of_logs {pcr : UInt8} {source : DataSource} {description : String} {data : Data}
    {bytes : ByteArray} {events : List Event} (hnodup : algs.Nodup) (halg : alg ∈ algs)
    (hhash : alg.isHash = true) (hfetch : source.fetch as = .ok (data, bytes))
    (h : Logs as algs (.event pcr source description) events) :
    ∃ e, (events.filter fun e => e.alg = alg ∧ e.kind = .informational) = [e] ∧ e.pcr = pcr ∧
      alg.hash bytes = .ok e.digest ∧ e.description = description := by
  cases h with
  | skipped hnone => cases hfetch.symm.trans hnone
  | event actor hsome =>
    cases hfetch.symm.trans hsome
    let record : MeasuredData := { data, source := some source, actor }
    refine ⟨record.event .informational pcr bytes description alg, ?_, rfl,
      record.hash_eq_digest_event .informational pcr bytes description hhash, rfl⟩
    rw [record.filter_events hnodup halg _ _ _ _ fun e he => (of_decide_eq_true he).1]
    exact List.filter_cons_of_pos (decide_eq_true ⟨rfl, rfl⟩)

end Action

/-- Actions that extend PCR 0 alone. -/
theorem Tpm.hasMeasured_of_payloads {tpm : Tpm} {actions : List Action} {wanted : UInt8}
    (hvalues : ∀ pcr alg, pcr.toNat < Tpm.pcrCount → alg ∈ algs →
      ∃ initial value, alg.initialValue pcr wanted = .ok initial ∧
        alg.measureAll initial (actions.flatMap (·.payloads as pcr)) = .ok value ∧
        tpm.pcrValue pcr alg = .ok value)
    (hzero : ∀ action ∈ actions, ∀ pcr source, action = .extend pcr source → pcr = 0) (halg : alg ∈ algs) :
    tpm.HasMeasured alg wanted (actions.flatMap (·.payloads as 0)) where
  pcr_zero := hvalues 0 alg (by decide) halg
  others pcr hpos hlt := by
    obtain ⟨initial, value, hinitial, hvalue, hget⟩ := hvalues pcr alg hlt halg
    have hnone : actions.flatMap (·.payloads as pcr) = [] := by
      refine List.flatMap_eq_nil_iff.mpr fun action hmem => Action.payloads_eq_nil fun source hextend => ?_
      obtain rfl := hzero action hmem pcr source hextend
      exact absurd hpos (by decide)
    rw [hnone] at hvalue
    cases hvalue
    exact ⟨initial, hinitial, hget⟩

/-! ## BIOS directory tables -/

namespace BiosDirectory

/-- The action that extends PCR 0 with a table. -/
def measurement (table : BiosDirectory) : Action := .extend 0 (.references [flashMemory [table.range]])

/-- The actions that measure the tables of an image. -/
theorem actions_eq (himage : as.image = some image) (htables : ofImage image = .ok tables) :
    Step.actions as (.platform .biosDirectory) = .ok (tables.map measurement) := by
  have hlocate : Probe.biosDirectory.locate as = .ok [flashMemory (tables.map range)] := by
    refine Probe.locate_eq_ok_iff.mpr ⟨image, himage, ?_⟩
    rw [Probe.locateIn, htables]
    rfl
  rw [Step.actions, PlatformStep.actions, hlocate, ok_bind, List.flatMap_singleton, flashMemory, List.map_map]
  rfl

/-- The actions of the AMD flow behind its start. -/
theorem allActions_eq_ok {actions : List Action}
    (h : Step.allActions as [.platform .embeddedFirmware, .platform .biosDirectory] = .ok actions) :
    ∃ image tables, as.image = some image ∧ ofImage image = .ok tables ∧
      actions = .event 0 (.probe .embeddedFirmware) "EmbeddedFirmware" :: tables.map measurement := by
  obtain ⟨first, _, hfirst, hrest, rfl⟩ := Step.allActions_cons_eq_ok_iff.mp h
  obtain ⟨second, last, hsecond, hnil, rfl⟩ := Step.allActions_cons_eq_ok_iff.mp hrest
  obtain rfl : [.event 0 (.probe .embeddedFirmware) "EmbeddedFirmware"] = first := Except.ok.inj hfirst
  obtain rfl : [] = last := Except.ok.inj hnil
  obtain ⟨refs, hrefs, -⟩ := exists_ok_of_bind hsecond
  obtain ⟨image, himage, hrefs⟩ := Probe.locate_eq_ok_iff.mp hrefs
  obtain ⟨tables, htables, -⟩ := exists_ok_of_bind hrefs
  have htables := mapError_eq_ok_iff.mp htables
  obtain rfl := Except.ok.inj (hsecond.symm.trans (actions_eq himage htables))
  refine ⟨image, tables, himage, htables, ?_⟩
  rw [List.append_nil, List.singleton_append]

/-- The bytes of a table that was read can be fetched. -/
theorem exists_fetch_range (himage : as.image = some image) {table : BiosDirectory}
    (hread : read image table.address = .ok table) :
    ∃ bytes, DataSource.fetch (.references [flashMemory [table.range]]) as =
        .ok (.references [flashMemory [table.range]], bytes) ∧ table.HasBytes image bytes := by
  obtain ⟨bytes, hbytes⟩ := (Reference.exists_bytes_mapped_iff himage).mpr
    (List.forall_mem_singleton.mpr (resolves_range hread))
  have hfetch : DataSource.fetch (.references [flashMemory [table.range]]) as =
      .ok (.references [flashMemory [table.range]], bytes) :=
    DataSource.fetch_references_eq_ok_iff.mpr ⟨rfl, by rw [References.bytes_singleton]; exact hbytes⟩
  exact ⟨bytes, hfetch, hasBytes_of_range himage hread hbytes⟩

/-- What is measured of tables is their bytes, none of which are missing. -/
theorem payloads_of_logs (himage : as.image = some image) {events : List (List Event)}
    (hread : ∀ t ∈ tables, read image t.address = .ok t)
    (h : List.Forall₂ (Action.Logs as algs) (tables.map measurement) events) :
    List.Forall₂ (HasBytes image) tables ((tables.map measurement).flatMap (·.payloads as 0)) := by
  induction tables generalizing events with
  | nil => exact .nil
  | cons table rest ih =>
    obtain ⟨htable, hrest⟩ := List.forall_mem_cons.mp hread
    obtain ⟨_, _, hfirst, hothers, rfl⟩ := List.forall₂_cons_left_iff.mp h
    cases hfirst with
    | extend actor hfetch =>
      have hhas := hasBytes_of_range himage htable (DataSource.bytes_of_fetch_reference hfetch)
      rw [List.map_cons, List.flatMap_cons, measurement, Action.payloads_extend hfetch, hhas.isEmpty_eq]
      exact .cons hhas (ih hrest hothers)

end BiosDirectory

/-! ## Steps without problems -/

/-- Actions that meet no problem have no issues. -/
theorem Action.issues_eq_nil {index : Nat} {actions : List Action}
    (h : ∀ action ∈ actions, action.problem? as = none) : Action.issues as index actions = [] := by
  induction actions generalizing index with
  | nil => rfl
  | cons action rest ih =>
    obtain ⟨hfirst, hrest⟩ := List.forall_mem_cons.mp h
    rw [Action.issues, hfirst]
    exact ih hrest

namespace Step

theorem issues_embeddedFirmware (himage : as.image = some image) {efs : EmbeddedFirmware}
    (hefs : EmbeddedFirmware.find image = .ok efs) : issues as (.platform .embeddedFirmware) = [] := by
  obtain ⟨data, hfetch⟩ := DataSource.fetch_embeddedFirmware himage hefs
  refine Action.issues_eq_nil (List.forall_mem_singleton.mpr ?_)
  rw [Action.problem?, hfetch]

theorem issues_biosDirectory (himage : as.image = some image)
    (htables : BiosDirectory.ofImage image = .ok tables) : issues as (.platform .biosDirectory) = [] := by
  rw [issues, BiosDirectory.actions_eq himage htables]
  refine Action.issues_eq_nil (List.forall_mem_map.mpr fun table htable => ?_)
  obtain ⟨bytes, hfetch, hhas⟩ :=
    BiosDirectory.exists_fetch_range himage (BiosDirectory.read_of_ofImage htables table htable)
  rw [BiosDirectory.measurement, Action.problem?, hfetch]
  dsimp only
  rw [hhas.isEmpty_eq, if_neg Bool.false_ne_true]

/-- With tables that are found, the AMD flow meets no problem. -/
theorem allIssues_amd (himage : as.image = some image) (htables : BiosDirectory.ofImage image = .ok tables) :
    allIssues as Flow.amd.steps.tail = [] := by
  obtain ⟨efs, hefs, -⟩ := exists_ok_of_bind htables
  have hfirst : allIssues as Flow.amd.steps.tail = allIssues as [.platform .biosDirectory] :=
    allIssues_of_issues_nil (issues_embeddedFirmware himage hefs)
  rw [hfirst, allIssues_of_issues_nil (issues_biosDirectory himage htables), allIssues]

end Step

/-! ## The flows of the platforms -/

namespace Run.At

/-- The Intel flow measures the policy status with the table of the image, and then the initial boot block
unless it is empty. -/
theorem measured_of_intel (h : run.At m Flow.intel 0) (hfinished : run.finish.status = .finished)
    (hstands : m.Stands as algs locality []) :
    ∃ image rs status fit block tpm, as.image = some image ∧ as.snapshot = some rs ∧
      rs.get? .acmPolicyStatus = some status ∧ Fit.read image = .ok fit ∧ fit.BootBlock image block ∧
      run.finish.machine.tpm = some tpm ∧
      ∀ alg ∈ algs, tpm.HasMeasured alg 3
        ((Bytes.ofWord status.toNat 8 ++ fit.bytes image) :: if block.isEmpty then [] else [block]) := by
  have hmeasuring := Step.measuring_platforms as [.pcr0Data, .ibb]
  obtain ⟨actions, events, tpm, hactions, hlogs, htpm, -, -, hvalues⟩ :=
    h.pcrValue_finish hfinished hmeasuring hstands
  obtain rfl : [Action.extend 0 (.probe .pcr0Data), .extend 0 (.probe .ibb)] = actions :=
    Except.ok.inj hactions
  obtain ⟨_, _, hfirst, hrest, rfl⟩ := List.forall₂_cons_left_iff.mp hlogs
  obtain ⟨_, _, hsecond, -, rfl⟩ := List.forall₂_cons_left_iff.mp hrest
  cases hfirst with
  | extend actor hfetch =>
    cases hsecond with
    | extend actor' hfetch' =>
      obtain ⟨image, rs, status, fit, himage, hsnapshot, hstatus, hfit, rfl⟩ :=
        DataSource.of_fetch_pcr0Data hfetch
      obtain ⟨_, _, himage', hfit', hblock⟩ := DataSource.of_fetch_ibb hfetch'
      cases himage.symm.trans himage'
      cases hfit.symm.trans hfit'
      refine ⟨image, rs, status, fit, _, tpm, himage, hsnapshot, hstatus, hfit, hblock, htpm,
        fun alg halg => ?_⟩
      have hmeasured := Tpm.hasMeasured_of_payloads hvalues (by simp) halg
      rwa [List.flatMap_cons, List.flatMap_singleton, Action.payloads_extend hfetch,
        Action.payloads_extend hfetch', DataSource.isEmpty_of_fetch_pcr0Data hfetch,
        if_neg Bool.false_ne_true, List.singleton_append] at hmeasured

/-- The AMD flow measures the BIOS directory tables one after the other, and logs the Embedded Firmware
Structure. -/
theorem measured_of_amd (h : run.At m Flow.amd 0) (hfinished : run.finish.status = .finished)
    (hstands : m.Stands as algs locality []) :
    ∃ image efs tables payloads tpm, as.image = some image ∧ EmbeddedFirmware.find image = .ok efs ∧
      BiosDirectory.ofImage image = .ok tables ∧
      List.Forall₂ (BiosDirectory.HasBytes image) tables payloads ∧ run.finish.machine.tpm = some tpm ∧
      ∀ alg ∈ algs, tpm.HasMeasured alg 0 payloads ∧ ∃ e, tpm.informational alg = [e] ∧ e.pcr = 0 ∧
        alg.hash (Bytes.slice image.bytes efs.offset EmbeddedFirmware.byteSize) = .ok e.digest ∧
        e.description = "EmbeddedFirmware" := by
  have hmeasuring := Step.measuring_platforms as [.embeddedFirmware, .biosDirectory]
  obtain ⟨actions, events, tpm, hactions, hlogs, htpm, -, hlog, hvalues⟩ :=
    h.pcrValue_finish hfinished hmeasuring hstands
  obtain ⟨image, tables, himage, htables, rfl⟩ := BiosDirectory.allActions_eq_ok hactions
  obtain ⟨efs, hefs, -⟩ := exists_ok_of_bind htables
  obtain ⟨data, hfetch⟩ := DataSource.fetch_embeddedFirmware himage hefs
  obtain ⟨efsEvents, tableEvents, hevent, htableLogs, rfl⟩ := List.forall₂_cons_left_iff.mp hlogs
  have hextend : ∀ action ∈ tables.map BiosDirectory.measurement,
      ∃ pcr source, action = .extend pcr source :=
    List.forall_mem_map.mpr fun table _ => ⟨0, _, rfl⟩
  have hpayloads := BiosDirectory.payloads_of_logs himage (BiosDirectory.read_of_ofImage htables) htableLogs
  refine ⟨image, efs, tables, _, tpm, himage, hefs, htables, hpayloads, htpm, fun alg halg => ⟨?_, ?_⟩⟩
  · have hzero : ∀ action ∈ Action.event 0 (.probe .embeddedFirmware) "EmbeddedFirmware" ::
        tables.map BiosDirectory.measurement, ∀ pcr source, action = .extend pcr source → pcr = 0 := by
      refine List.forall_mem_cons.mpr
        ⟨fun pcr source h => ?_, List.forall_mem_map.mpr fun table _ pcr source h => ?_⟩
      · cases h
      · cases h
        rfl
    have hmeasured := Tpm.hasMeasured_of_payloads hvalues hzero halg
    rwa [List.flatMap_cons, Action.payloads, List.nil_append] at hmeasured
  · have hrest : (tableEvents.flatten.filter fun e => e.alg = alg ∧ e.kind = .informational) = [] := by
      refine List.filter_eq_nil_iff.mpr fun e he => ?_
      rw [decide_eq_true_iff, Action.kind_of_logs htableLogs hextend e he]
      exact fun h => absurd h.2 (by decide)
    obtain ⟨-, started, -, rfl, hbooked⟩ := hstands.booked
    obtain ⟨e, he, hrecord⟩ := Action.informational_of_logs hbooked.balanced.nodup halg
      (hbooked.balanced.isHash alg halg) hfetch hevent
    refine ⟨e, ?_, hrecord⟩
    rw [Tpm.informational, hlog, List.flatten_cons, List.filter_append, he, hrest, List.append_nil]

/-- The flow of the Open Compute Project measures the marker of the vendor version, or does not finish. -/
theorem measured_of_ocpPei (h : run.At m Flow.ocpPei 0) (hfinished : run.finish.status = .finished)
    (hstands : m.Stands as algs locality []) :
    ∃ tpm, run.finish.machine.tpm = some tpm ∧
      ∀ alg ∈ algs, tpm.HasMeasured alg 0 [VendorVersion.marker] := by
  have hmeasuring : ∀ step ∈ [Step.guarded .vendorVersionPresent (.platform .vendorVersion),
      .guarded (.not .vendorVersionPresent) (.panic "not an OCP v1 firmware")], step.Measuring as := by
    simp only [List.forall_mem_cons, Step.measuring_guarded (Step.measuring_platform as .vendorVersion),
      Step.measuring_guarded (Step.measuring_panic as _), List.not_mem_nil, false_imp_iff, implies_true,
      and_self]
  obtain ⟨actions, events, tpm, hactions, hlogs, htpm, -, -, hvalues⟩ :=
    h.pcrValue_finish hfinished hmeasuring hstands
  obtain ⟨first, _, hfirst, hrest, rfl⟩ := Step.allActions_cons_eq_ok_iff.mp hactions
  obtain ⟨second, last, hsecond, hnil, rfl⟩ := Step.allActions_cons_eq_ok_iff.mp hrest
  obtain rfl : [] = last := Except.ok.inj hnil
  rw [Step.actions] at hfirst hsecond
  rw [Condition.holds] at hsecond
  cases hholds : Condition.vendorVersionPresent.holds as with
  | true =>
    rw [hholds, if_pos rfl] at hfirst
    rw [hholds, if_neg (by decide)] at hsecond
    obtain rfl : [Action.extend 0 (.probe .vendorVersion)] = first := Except.ok.inj hfirst
    obtain rfl : [] = second := Except.ok.inj hsecond
    obtain ⟨_, _, hlog, -, rfl⟩ := List.forall₂_cons_left_iff.mp hlogs
    cases hlog with
    | extend actor hfetch =>
      obtain rfl := DataSource.of_fetch_vendorVersion hfetch
      refine ⟨tpm, htpm, fun alg halg => ?_⟩
      have hmeasured := Tpm.hasMeasured_of_payloads hvalues (by simp) halg
      have hmarker : VendorVersion.marker.isEmpty = false := by decide
      rwa [List.singleton_append, List.append_nil, List.flatMap_singleton, Action.payloads_extend hfetch,
        hmarker, if_neg Bool.false_ne_true] at hmeasured
  | false =>
    -- the last step aborts the boot
    rw [hholds, if_neg Bool.false_ne_true] at hfirst
    rw [hholds, if_pos (by decide)] at hsecond
    obtain rfl : [] = first := Except.ok.inj hfirst
    obtain rfl : [Action.panic "not an OCP v1 firmware"] = second := Except.ok.inj hsecond
    obtain ⟨_, _, hlog, -, rfl⟩ := List.forall₂_cons_left_iff.mp hlogs
    cases hlog

end Run.At

/-! ## Runs from the start -/

/-- A machine with a new module has logged nothing. -/
theorem Machine.stands_of_isNew {built : Tpm} (hnew : built.IsNew algs) (hm : m.tpm = some built) :
    m.Stands m.artifacts built.algorithms m.locality? [] where
  booked := ⟨rfl, built, hm, rfl, hnew.booked _⟩
  locality_eq := rfl
  log_eq := by
    obtain ⟨-, rfl⟩ := Tpm.of_withAlgorithms hnew.withAlgorithms
    exact log_of_tpm hm

namespace Run

/-- The run of the root flow finishes in a flow that it switched to. -/
def FinishesIn (m : Machine) (flow : Flow) : Prop :=
  (withFlow m Flow.root).finish.status = .finished ∧
    (withFlow m Flow.root).finish.machine.flow = some flow

/-- There is no other way for the root flow to finish. -/
theorem finishesIn_of_finished (hfinished : (withFlow m Flow.root).finish.status = .finished) :
    FinishesIn m Flow.intel ∨ FinishesIn m Flow.amd := by
  obtain ⟨_, -, -, hintel⟩ | ⟨_, -, -, hamd⟩ := At.platform_of_root ⟨rfl, rfl, rfl, rfl⟩ hfinished
  · exact .inl ⟨hfinished, hintel⟩
  · exact .inr ⟨hfinished, hamd⟩

/-- The root flow finishes in the AMD flow if the image has no Firmware Interface Table, and its BIOS directory
tables are found. -/
theorem finishesIn_amd {built : Tpm} (hnew : built.IsNew algs) (hm : m.tpm = some built)
    (himage : m.artifacts.image = some image) (hfit : ¬m.artifacts.Finds Fit.read)
    (htables : BiosDirectory.ofImage image = .ok tables) : FinishesIn m Flow.amd := by
  obtain ⟨efs, hefs, -⟩ := exists_ok_of_bind htables
  have hstart : (withFlow m Flow.root).At { m with flow := some Flow.root } Flow.root 0 := ⟨rfl, rfl, rfl, rfl⟩
  have hcomes : (withFlow m Flow.root).ComesTo (Step.allIssues m.artifacts Flow.amd.steps.tail) :=
    hstart.comesTo_skip rfl (Condition.imageHas_eq_false hfit) fun _ hsecond =>
      hsecond.comesTo_switch rfl (Condition.imageHas_eq_true_iff.mpr ⟨image, efs, himage, hefs⟩)
        fun _ hamd => hamd.comesTo_amd hnew hm
  have hfinished : (withFlow m Flow.root).finish.status = .finished := by
    rw [hcomes.status_eq, Step.allIssues_amd himage htables]
    rfl
  obtain hintel | hamd := finishesIn_of_finished hfinished
  · -- the Intel flow does not finish without a table
    obtain ⟨next, hnext, hat⟩ := hstart.intel_of_root hfinished hintel.2
    obtain ⟨image', -, -, fit, -, -, himage', -, -, hread, -⟩ :=
      hat.measured_of_intel (hnext ▸ hfinished) (Machine.stands_of_isNew hnew hm)
    exact absurd ⟨image', fit, himage', hread⟩ hfit
  · exact hamd

/-- What the built-in flows measure with a new module, when they finish. PCR 0 is extended

* by way of Intel, at locality 3, by the bytes of the policy status in front of those of the Firmware
  Interface Table, and then by the initial boot block unless it is empty;
* by way of AMD, at locality 0, by the BIOS directory tables in the order in which they are reached, and the
  Embedded Firmware Structure is logged once in each bank;
* by the flow of the Open Compute Project, at locality 0, by the marker of the vendor version. -/
theorem pcrValues_of_flow {built : Tpm} (hnew : built.IsNew algs) (hm : m.tpm = some built) :
    (FinishesIn m Flow.intel → ∃ image rs status fit block tpm,
      m.artifacts.image = some image ∧ m.artifacts.snapshot = some rs ∧
      rs.get? .acmPolicyStatus = some status ∧ Fit.read image = .ok fit ∧ fit.BootBlock image block ∧
      (withFlow m Flow.root).finish.machine.tpm = some tpm ∧
      ∀ alg ∈ algs, tpm.HasMeasured alg 3
        ((Bytes.ofWord status.toNat 8 ++ fit.bytes image) :: if block.isEmpty then [] else [block])) ∧
    (FinishesIn m Flow.amd → ∃ image efs tables payloads tpm,
      m.artifacts.image = some image ∧ EmbeddedFirmware.find image = .ok efs ∧
      BiosDirectory.ofImage image = .ok tables ∧
      List.Forall₂ (BiosDirectory.HasBytes image) tables payloads ∧
      (withFlow m Flow.root).finish.machine.tpm = some tpm ∧
      ∀ alg ∈ algs, tpm.HasMeasured alg 0 payloads ∧ ∃ e, tpm.informational alg = [e] ∧ e.pcr = 0 ∧
        alg.hash (Bytes.slice image.bytes efs.offset EmbeddedFirmware.byteSize) = .ok e.digest ∧
        e.description = "EmbeddedFirmware") ∧
    ((withFlow m Flow.ocpPei).finish.status = .finished → ∃ tpm,
      (withFlow m Flow.ocpPei).finish.machine.tpm = some tpm ∧
      ∀ alg ∈ algs, tpm.HasMeasured alg 0 [VendorVersion.marker]) := by
  have hbanks (alg : Algorithm) : alg ∈ algs → alg ∈ built.algorithms :=
    (Tpm.mem_algorithms_iff hnew.withAlgorithms alg).mpr
  refine ⟨fun ⟨hfinished, hflow⟩ => ?_, fun ⟨hfinished, hflow⟩ => ?_, fun hfinished => ?_⟩
  · obtain ⟨next, hnext, hat⟩ := At.intel_of_root ⟨rfl, rfl, rfl, rfl⟩ hfinished hflow
    rw [hnext] at hfinished ⊢
    obtain ⟨image, rs, status, fit, block, tpm, himage, hrs, hstatus, hfit, hblock, htpm, hmeasured⟩ :=
      hat.measured_of_intel hfinished (Machine.stands_of_isNew hnew hm)
    exact ⟨image, rs, status, fit, block, tpm, himage, hrs, hstatus, hfit, hblock, htpm,
      fun alg halg => hmeasured alg (hbanks alg halg)⟩
  · obtain ⟨next, hnext, hat⟩ := At.amd_of_root ⟨rfl, rfl, rfl, rfl⟩ hfinished hflow
    rw [hnext] at hfinished ⊢
    obtain ⟨image, efs, tables, payloads, tpm, himage, hefs, htables, hbytes, htpm, hmeasured⟩ :=
      hat.measured_of_amd hfinished (Machine.stands_of_isNew hnew hm)
    exact ⟨image, efs, tables, payloads, tpm, himage, hefs, htables, hbytes, htpm,
      fun alg halg => hmeasured alg (hbanks alg halg)⟩
  · have hat : (withFlow m Flow.ocpPei).At { m with flow := some Flow.ocpPei } Flow.ocpPei 0 :=
      ⟨rfl, rfl, rfl, rfl⟩
    obtain ⟨tpm, htpm, hmeasured⟩ :=
      hat.measured_of_ocpPei hfinished (Machine.stands_of_isNew hnew hm)
    exact ⟨tpm, htpm, fun alg halg => hmeasured alg (hbanks alg halg)⟩

/-- All three platforms: an image with a marked region of the boot block, and a flash image with one table. -/
theorem pcrValues_of_flow_markedMachine :
    FinishesIn markedMachine Flow.intel ∧
    (∃ fit block tpm, Fit.read markedImage = .ok fit ∧ fit.BootBlock markedImage block ∧
      (withFlow markedMachine Flow.root).finish.machine.tpm = some tpm ∧
      tpm.HasMeasured .sha256 3
        ((Bytes.ofWord 0x1032980E5B 8 ++ fit.bytes markedImage) :: if block.isEmpty then [] else [block])) ∧
    FinishesIn (Machine.ofImage plainFlash) Flow.amd ∧
    (∃ bytes tpm, plainTable.HasBytes plainFlash bytes ∧
      (withFlow (Machine.ofImage plainFlash) Flow.root).finish.machine.tpm = some tpm ∧
      tpm.HasMeasured .sha256 0 [bytes] ∧ ∃ e, tpm.informational .sha256 = [e] ∧ e.pcr = 0 ∧
        Algorithm.sha256.hash (Bytes.slice plainFlash.bytes 0x20000 36) = .ok e.digest ∧
        e.description = "EmbeddedFirmware") ∧
    (withFlow markedMachine Flow.ocpPei).finish.status = .finished ∧
    ∃ tpm, (withFlow markedMachine Flow.ocpPei).finish.machine.tpm = some tpm ∧
      tpm.HasMeasured .sha256 0 [VendorVersion.marker] := by
  have hnew : Tpm.IsNew Tpm.defaultAlgorithms Tpm.fresh := .inl ⟨rfl, rfl⟩
  have hroot : FinishesIn markedMachine Flow.intel := by
    have hfinished : (withFlow markedMachine Flow.root).finish.status = .finished := by
      rw [finish_eq_stepped (show ((withFlow markedMachine Flow.root).stepped 5).status.isTerminal = true
        by decide +kernel)]
      decide +kernel
    have hfit : Condition.fitPresent.holds markedMachine.artifacts = true :=
      Condition.imageHas_eq_true_iff.mpr ⟨markedImage, _, rfl, TableLayout.marked.read_image⟩
    exact ⟨hfinished, At.flow_of_fit ⟨rfl, rfl, rfl, rfl⟩ hfit hfinished⟩
  have hflash : FinishesIn (Machine.ofImage plainFlash) Flow.amd :=
    finishesIn_amd hnew rfl rfl (Artifacts.not_finds_of_error rfl read_fit_plainFlash) ofImage_plainFlash
  have hocp : (withFlow markedMachine Flow.ocpPei).finish.status = .finished := by
    rw [finish_eq_stepped (show ((withFlow markedMachine Flow.ocpPei).stepped 4).status.isTerminal = true
      by decide +kernel)]
    decide +kernel
  obtain ⟨hintel, -, hmarker⟩ := pcrValues_of_flow hnew (show markedMachine.tpm = some Tpm.fresh from rfl)
  obtain ⟨-, hamd, -⟩ :=
    pcrValues_of_flow hnew (show (Machine.ofImage plainFlash).tpm = some Tpm.fresh from rfl)
  obtain ⟨image, rs, status, fit, block, tpm, himage, hrs, hstatus, hfit, hblock, htpm, hmeasured⟩ :=
    hintel hroot
  obtain ⟨flash, efs, tables, payloads, tpm₁, hflashImage, hefs, htables, hbytes, htpm₁, hmeasured₁⟩ :=
    hamd hflash
  obtain ⟨tpm₂, htpm₂, hmeasured₂⟩ := hmarker hocp
  cases himage
  cases hrs
  cases hstatus
  obtain rfl := Option.some.inj hflashImage
  obtain rfl := Except.ok.inj (find_plainFlash.symm.trans hefs)
  obtain rfl := Except.ok.inj (ofImage_plainFlash.symm.trans htables)
  obtain ⟨bytes, _, htable, hnil, rfl⟩ := List.forall₂_cons_left_iff.mp hbytes
  cases hnil
  obtain ⟨hvalues, e, hevent⟩ := hmeasured₁ .sha256 (by decide)
  exact ⟨hroot, ⟨fit, block, tpm, hfit, hblock, htpm, hmeasured .sha256 (by decide)⟩, hflash,
    ⟨bytes, tpm₁, htable, htpm₁, hvalues, e, hevent⟩, hocp, tpm₂, htpm₂, hmeasured₂ .sha256 (by decide)⟩

end Run

end MeasuredBoot
