import MeasuredBoot.Proofs.Artifact.Alike
import MeasuredBoot.Proofs.Run.Books
import MeasuredBoot.Proofs.Run.Finish
import MeasuredBoot.Proofs.Tpm.Extending

/-!
# Two runs side by side

A run of a machine whose artifacts are alike mirrors the run of the other machine: it takes the same
steps and logs the same events, though with other digests. It does so up to the end if the other run
finishes.

* `Tpm.Mirrors`: modules that differ in PCR values and digests only;
* `Tpm.Mirrors.measure`, `Tpm.Mirrors.initLazy`: what one module takes, the other one takes;
* `Machine.Mirrors.apply`, `Progress.Mirrors.perform`: an action, and the actions of a step;
* `Run.Mirrors.next`, `Run.Mirrors.finish`: a step, and the whole run.
-/

namespace MeasuredBoot

/-- The event without its digest. -/
def Event.blank (e : Event) : Event := { e with digest := ByteArray.empty }

theorem Event.of_blank_eq {e other : Event} (h : e.blank = other.blank) :
    e.alg = other.alg ∧ e.measured = other.measured := by
  cases e
  cases other
  cases h
  exact ⟨rfl, rfl⟩

theorem MeasuredData.blank_event (record : MeasuredData) (kind : EventKind) (pcr : UInt8)
    (bytes bytes' : ByteArray) (description : String) (alg : Algorithm) :
    (record.event kind pcr bytes description alg).blank =
      (record.event kind pcr bytes' description alg).blank := by
  simp only [Event.blank, event]

/-! ## Modules -/

namespace Tpm

/-- Modules with values in the same slots and events that are the same apart from their digests. The
banks are those of hash functions, and the data of the events is not converted. -/
structure Mirrors (tpm other : Tpm) : Prop where
  hashes : ∀ alg ∈ tpm.algorithms, alg.isHash = true
  algorithms_eq : tpm.algorithms = other.algorithms
  locality_eq : tpm.locality = other.locality
  finished_eq : tpm.finished = other.finished
  slots : ∀ pcr alg, (tpm.pcrValue pcr alg).isOk = (other.pcrValue pcr alg).isOk
  events : tpm.eventLog.map Event.blank = other.eventLog.map Event.blank
  plain : ∀ e ∈ tpm.eventLog, ∀ record, e.measured = some record → record.data.converter = none

theorem extensions_map_blank (tpm : Tpm) (pcr : UInt8) (alg : Algorithm) :
    (tpm.extensions pcr alg).map Event.blank =
      (tpm.eventLog.map Event.blank).filter (·.isExtension pcr alg) := by
  rw [List.filter_map]
  rfl

namespace Mirrors

variable {tpm other after : Tpm}

/-- The command log does not matter. -/
theorem relog (h : tpm.Mirrors other) (log log' : List LoggedCommand) :
    Mirrors { tpm with commandLog := log } { other with commandLog := log' } :=
  ⟨h.hashes, h.algorithms_eq, h.locality_eq, h.finished_eq, h.slots, h.events, h.plain⟩

theorem finish (h : tpm.Mirrors other) : tpm.finish.Mirrors other.finish :=
  ⟨h.hashes, h.algorithms_eq, h.locality_eq, rfl, h.slots, h.events, h.plain⟩

theorem start {locality : UInt8} (h : tpm.Mirrors other) (hstart : tpm.start locality = .ok after) :
    ∃ after', other.start locality = .ok after' ∧ after.Mirrors after' := by
  obtain ⟨hnone, pcrs, hpcrs, rfl⟩ := start_eq_ok_iff.mp hstart
  refine ⟨_, start_eq_ok_iff.mpr ⟨h.locality_eq ▸ hnone, pcrs, h.algorithms_eq ▸ hpcrs, rfl⟩, ?_⟩
  exact ⟨h.hashes, h.algorithms_eq, rfl, h.finished_eq, fun _ _ => rfl, h.events, h.plain⟩

/-- A PCR is extended, in the other module by another digest. -/
theorem extend {pcr : UInt8} {alg : Algorithm} {digest digest' : ByteArray} (h : tpm.Mirrors other)
    (hsize : alg.digestSize? = some digest'.size) (hextend : tpm.extend pcr alg digest = .ok after) :
    ∃ after', other.extend pcr alg digest' = .ok after' ∧ after.Mirrors after' := by
  obtain ⟨old, value, pcrs, -, hold, -, hpcrs, rfl⟩ := extend_eq_ok_iff.mp hextend
  have hsome : (other.pcrValue pcr alg).isOk = true := by
    rw [← h.slots pcr alg, pcrValue, hold]
    rfl
  have hhash : alg.isHash = true := by rw [Algorithm.isHash, hsize]; rfl
  obtain ⟨old', hold'⟩ := exists_ok_of_isOk hsome
  obtain ⟨pcrs', hpcrs'⟩ := exists_set hsome ((alg.digest? (old' ++ digest')).getD ByteArray.empty)
  refine ⟨_, extend_eq_ok_iff.mpr ⟨old', _, pcrs', hsize, hold', Algorithm.hash_eq_ok hhash _, hpcrs', rfl⟩,
    ⟨h.hashes, h.algorithms_eq, h.locality_eq, h.finished_eq, fun pcr' alg' => ?_, h.events, h.plain⟩⟩
  have hslot := h.slots pcr' alg'
  rw [pcrValue, pcrValue] at hslot ⊢
  dsimp only
  rw [PcrValues.get_of_set hpcrs, PcrValues.get_of_set hpcrs']
  split
  · rfl
  · exact hslot

/-- An event is logged, in the other module with another digest. -/
theorem logged {event event' : Event} (h : tpm.Mirrors other) (hevent : event.blank = event'.blank)
    (hplain : ∀ record, event.measured = some record → record.data.converter = none) :
    Mirrors { tpm with eventLog := tpm.eventLog ++ [event] }
      { other with eventLog := other.eventLog ++ [event'] } where
  hashes := h.hashes
  algorithms_eq := h.algorithms_eq
  locality_eq := h.locality_eq
  finished_eq := h.finished_eq
  slots := h.slots
  events := by rw [List.map_append, List.map_append, h.events, List.map_singleton, List.map_singleton, hevent]
  plain := List.forall_mem_append.mpr ⟨h.plain, List.forall_mem_singleton.mpr hplain⟩

section

variable {record : MeasuredData} {kind : EventKind} {pcr : UInt8} {bytes bytes' : ByteArray}
  {description : String}

/-- A measurement in one bank, of other bytes in the other module. -/
theorem entries {alg : Algorithm} (h : tpm.Mirrors other) (hplain : record.data.converter = none)
    (hhash : alg.isHash = true)
    (happly : tpm.applyAll (record.entries kind pcr bytes description alg) = .ok after) :
    ∃ after', other.applyAll (record.entries kind pcr bytes' description alg) = .ok after' ∧
      after.Mirrors after' := by
  have hrecord (r : MeasuredData) (hr : some record = some r) : r.data.converter = none :=
    Option.some.inj hr ▸ hplain
  cases kind with
  | informational =>
    cases happly
    exact ⟨_, rfl, h.logged (record.blank_event ..) hrecord⟩
  | extend =>
    obtain ⟨next, hnext, hlog⟩ := exists_ok_of_bind happly
    cases hlog
    have hsize := record.digestSize?_event .extend pcr bytes' description hhash
    obtain ⟨next', hnext', hmirrors⟩ := h.extend hsize hnext
    refine ⟨_, bind_eq_ok_iff.mpr ⟨next', hnext', rfl⟩, hmirrors.logged (record.blank_event ..) hrecord⟩

/-- A measurement in several banks, of other bytes in the other module. -/
theorem measure {algs : List Algorithm} (h : tpm.Mirrors other) (hplain : record.data.converter = none)
    (hhash : ∀ alg ∈ algs, alg.isHash = true)
    (happly : tpm.applyAll (algs.flatMap (record.entries kind pcr bytes description)) = .ok after) :
    ∃ after', other.applyAll (algs.flatMap (record.entries kind pcr bytes' description)) = .ok after' ∧
      after.Mirrors after' := by
  induction algs generalizing tpm other with
  | nil =>
    cases happly
    exact ⟨other, rfl, h⟩
  | cons alg rest ih =>
    obtain ⟨halg, hrest⟩ := List.forall_mem_cons.mp hhash
    rw [List.flatMap_cons, applyAll_append] at happly
    obtain ⟨next, hnext, happly⟩ := exists_ok_of_bind happly
    obtain ⟨next', hnext', hmirrors⟩ := h.entries hplain halg hnext
    obtain ⟨after', hafter', hmirrors'⟩ := ih hmirrors hrest happly
    refine ⟨after', ?_, hmirrors'⟩
    rw [List.flatMap_cons, applyAll_append, hnext', ok_bind, hafter']

end

/-- A start that one module takes, the other one takes. -/
theorem initLazy {locality : UInt8} {cause : Coordinates} (h : tpm.Mirrors other)
    (hinit : tpm.initLazy locality cause = (after, .ok ())) :
    ∃ after', other.initLazy locality cause = (after', .ok ()) ∧ after.Mirrors after' := by
  rw [Tpm.initLazy] at hinit ⊢
  rw [← h.locality_eq]
  cases hl : tpm.locality with
  | some current =>
    rw [hl] at hinit
    dsimp only at hinit ⊢
    split at hinit
    · rename_i hsame
      cases hinit
      rw [if_pos hsame]
      exact ⟨other, rfl, h⟩
    · cases hinit
  | none =>
    rw [hl] at hinit
    dsimp only at hinit ⊢
    obtain ⟨e, hrefused⟩ | ⟨started, hopen, happly, htaken⟩ := tpm.send_cases [.init locality] cause
    · rw [hrefused] at hinit
      cases hinit
    · rw [htaken] at hinit
      cases hinit
      rw [applyAll_singleton] at happly
      obtain ⟨started', hstarted', hmirrors⟩ := h.start happly
      have happly' : other.applyAll [.init locality] = .ok started' :=
        (applyAll_singleton ..).trans hstarted'
      rw [send_of_applyAll cause happly' (h.finished_eq ▸ hopen)]
      exact ⟨_, rfl, hmirrors.relog _ _⟩

end Mirrors

end Tpm

/-! ## Machines -/

namespace Machine

/-- Machines with artifacts that are alike, with the same flow, and with modules of which one mirrors
the other. -/
structure Mirrors (m other : Machine) : Prop where
  alike : m.artifacts.Alike other.artifacts
  flow_eq : m.flow = other.flow
  tpm : ∃ t t', m.tpm = some t ∧ other.tpm = some t' ∧ t.Mirrors t'

namespace Mirrors

variable {m other after : Machine}

theorem finish (h : m.Mirrors other) : m.finish.Mirrors other.finish := by
  obtain ⟨t, t', ht, ht', hmirrors⟩ := h.tpm
  refine ⟨h.alike, h.flow_eq, t.finish, t'.finish, ?_, ?_, hmirrors.finish⟩
  · rw [Machine.finish, ht]
    rfl
  · rw [Machine.finish, ht']
    rfl

theorem measure {kind : EventKind} {pcr : UInt8} {bytes : ByteArray} (bytes' : ByteArray)
    {description : String} {record : MeasuredData} {outcome : Outcome} (h : m.Mirrors other)
    (hplain : record.data.converter = none)
    (hmeasure : m.measure kind pcr bytes description record = (after, .ok outcome)) :
    ∃ after', other.measure kind pcr bytes' description record = (after', .ok outcome) ∧
      after.Mirrors after' := by
  obtain ⟨e, hfailed⟩ | ⟨t, commands, t₁, ht, hcommands, hopen, happly, htaken⟩ :=
    m.measure_cases kind pcr bytes description record
  · rw [hfailed] at hmeasure
    cases hmeasure
  rw [htaken] at hmeasure
  cases hmeasure
  obtain ⟨_, t', hsame, ht', hmirrors⟩ := h.tpm
  obtain rfl := Option.some.inj (ht.symm.trans hsame)
  rw [MeasuredData.commands_eq _ _ _ _ _ hmirrors.hashes] at hcommands
  cases hcommands
  obtain ⟨t₁', happly', hmirrors'⟩ := hmirrors.measure hplain hmirrors.hashes happly
  have hcommands' : record.commands kind pcr bytes' description t'.algorithms = .ok _ :=
    MeasuredData.commands_eq _ _ _ _ _ (hmirrors.algorithms_eq ▸ hmirrors.hashes)
  rw [hmirrors.algorithms_eq] at happly'
  exact ⟨_, measure_of_applyAll ht' hcommands' (hmirrors.finished_eq ▸ hopen) happly', h.alike, h.flow_eq,
    _, _, rfl, rfl, hmirrors'.relog _ _⟩

/-- An action that does not abort the boot of one machine does not abort that of the other. -/
theorem apply {actor : Actor} {action : Action} {outcome : Outcome} (h : m.Mirrors other)
    (happly : action.apply m actor = (after, .ok outcome)) :
    ∃ after' outcome', action.apply other actor = (after', .ok outcome') ∧
      outcome'.flow? = outcome.flow? ∧ after.Mirrors after' := by
  cases action with
  | switchTo flow =>
    cases happly
    exact ⟨other, _, rfl, rfl, h⟩
  | panic message => cases happly
  | initTpm locality =>
    obtain ⟨t, t', ht, ht', hmirrors⟩ := h.tpm
    rw [Action.apply] at happly
    cases hinit : t.initLazy locality actor.coords with
    | mk t₁ result =>
      cases result with
      | error e =>
        rw [withTpm_eq ht, hinit] at happly
        cases happly
      | ok started =>
        rw [withTpm_of_ok ht hinit] at happly
        cases happly
        obtain ⟨t₁', hinit', hmirrors'⟩ := hmirrors.initLazy hinit
        refine ⟨{ other with tpm := some t₁' }, .done, ?_, rfl, h.alike, h.flow_eq, t₁, t₁', rfl, rfl,
          hmirrors'⟩
        rw [Action.apply, withTpm_of_ok ht' hinit']
        rfl
  | extend pcr source =>
    rw [Action.apply] at happly ⊢
    cases hfetch : source.fetch m.artifacts with
    | error e =>
      rw [hfetch] at happly
      cases happly
    | ok fetched =>
      obtain ⟨data, bytes⟩ := fetched
      obtain ⟨hplain, bytes', hfetch', hsize⟩ := h.alike.fetch hfetch
      have hempty : bytes'.isEmpty = bytes.isEmpty := congrArg (· == 0) hsize
      rw [hfetch] at happly
      rw [hfetch']
      dsimp only at happly ⊢
      rw [hempty]
      split at happly
      · rename_i hyes
        cases happly
        rw [if_pos hyes]
        exact ⟨other, _, rfl, rfl, h⟩
      · rename_i hno
        rw [if_neg hno]
        obtain ⟨after', hmeasure, hmirrors⟩ := h.measure bytes' hplain happly
        exact ⟨after', outcome, hmeasure, rfl, hmirrors⟩
  | event pcr source description =>
    rw [Action.apply] at happly ⊢
    cases hfetch : source.fetch m.artifacts with
    | error e =>
      obtain ⟨e', hfetch'⟩ := h.alike.fetch_error hfetch
      rw [hfetch] at happly
      rw [hfetch']
      cases happly
      exact ⟨other, _, rfl, rfl, h⟩
    | ok fetched =>
      obtain ⟨data, bytes⟩ := fetched
      obtain ⟨hplain, bytes', hfetch', -⟩ := h.alike.fetch hfetch
      rw [hfetch] at happly
      rw [hfetch']
      obtain ⟨after', hmeasure, hmirrors⟩ := h.measure bytes' hplain happly
      exact ⟨after', outcome, hmeasure, rfl, hmirrors⟩

end Mirrors

end Machine

/-! ## Steps -/

namespace Progress

/-- What two runs got to in a step, both without a failure so far. -/
structure Mirrors (p other : Progress) : Prop where
  machine : p.machine.Mirrors other.machine
  next_eq : p.next = other.next
  failure_eq : p.failure = none
  failure_eq' : other.failure = none

namespace Mirrors

variable {p other : Progress} {actor : Nat → Actor}

theorem act {index : Nat} {action : Action} (h : p.Mirrors other)
    (hok : (p.act actor index action).failure = none) :
    (p.act actor index action).Mirrors (other.act actor index action) := by
  cases happly : action.apply p.machine (actor index) with
  | mk after result =>
    cases result with
    | error e =>
      rw [Progress.act, happly] at hok
      cases hok
    | ok outcome =>
      obtain ⟨after', outcome', happly', hflow, hmirrors⟩ := h.machine.apply happly
      rw [Progress.act, Progress.act, happly, happly']
      constructor
      · rw [machine_note, machine_note]
        exact hmirrors
      · rw [next_note, next_note, hflow]
        exact congrArg outcome.flow?.or h.next_eq
      · rw [failure_note]
        exact h.failure_eq
      · rw [failure_note]
        exact h.failure_eq'

theorem perform {actions : List Action} {index : Nat} (h : p.Mirrors other)
    (hok : (p.perform actor index actions).failure = none) :
    (p.perform actor index actions).Mirrors (other.perform actor index actions) := by
  induction actions generalizing p other index with
  | nil => exact h
  | cons action rest ih =>
    simp only [Progress.perform] at hok ⊢
    cases hact : (p.act actor index action).failure with
    | some e =>
      rw [hact] at hok
      cases hact.symm.trans hok
    | none =>
      have hmirrors := h.act hact
      rw [hact] at hok
      rw [hmirrors.failure_eq']
      exact ih hmirrors hok

end Mirrors

end Progress

/-! ## Runs -/

namespace Run

/-- Runs that got equally far, of machines of which one mirrors the other. -/
structure Mirrors (run other : Run) : Prop where
  machine : run.machine.Mirrors other.machine
  flowIndex_eq : run.flowIndex = other.flowIndex
  stepIndex_eq : run.stepIndex = other.stepIndex
  status_eq : run.status = other.status

namespace Mirrors

variable {run other : Run}

theorem take (h : run.Mirrors other) {step : Step} (hok : (run.take step).failure = none) :
    (run.take step).Mirrors (other.take step) := by
  have hactor : other.actor step = run.actor step := by
    funext i
    rw [actor, actor, h.flowIndex_eq, h.stepIndex_eq]
  rw [Run.take, Run.take, ← h.machine.alike.actions, hactor]
  rw [Run.take] at hok
  cases hactions : step.actions run.machine.artifacts with
  | error e =>
    rw [hactions] at hok
    cases hok
  | ok actions =>
    rw [hactions] at hok
    exact Progress.Mirrors.perform ⟨h.machine, rfl, rfl, rfl⟩ hok

theorem close (h : run.Mirrors other) (status : RunStatus) :
    (run.close status).Mirrors (other.close status) :=
  ⟨h.machine.finish, h.flowIndex_eq, h.stepIndex_eq, rfl⟩

theorem due (h : run.Mirrors other) {flow : Flow} {step : Step} (hdue : run.Due flow step) :
    other.Due flow step := by
  obtain ⟨hopen, hflow, hstep⟩ := hdue
  exact ⟨h.status_eq ▸ hopen, h.machine.flow_eq ▸ hflow, h.stepIndex_eq ▸ hstep⟩

theorem ends (h : run.Mirrors other) (hends : run.Ends) : other.Ends := by
  obtain ⟨hopen, hends⟩ := hends
  rw [Ends, ← h.status_eq, ← h.machine.flow_eq, ← h.stepIndex_eq]
  exact ⟨hopen, hends⟩

/-- A step of a run that it does not abort. -/
theorem next (h : run.Mirrors other) (hok : ∀ reason, run.next.1.status ≠ .aborted reason) :
    run.next.1.Mirrors other.next.1 ∧ run.next.2 = other.next.2 := by
  obtain hterminal | hends | ⟨flow, step, hdue⟩ := run.due_cases
  · rw [next_of_isTerminal hterminal, next_of_isTerminal (h.status_eq ▸ hterminal)]
    exact ⟨h, rfl⟩
  · rw [next_of_ends hends, next_of_ends (h.ends hends)]
    exact ⟨h.close .finished, rfl⟩
  · cases hfailure : (run.take step).failure with
    | some reason =>
      rw [next_of_failure hdue hfailure] at hok
      exact absurd rfl (hok reason)
    | none =>
      have hstep := h.take hfailure
      rw [next_of_take hdue hfailure, next_of_take (h.due hdue) hstep.failure_eq', ← hstep.next_eq]
      refine ⟨?_, rfl⟩
      cases (run.take step).next with
      | none => exact ⟨hstep.machine, h.flowIndex_eq, congrArg (· + 1) h.stepIndex_eq, rfl⟩
      | some flow =>
        obtain ⟨halike, -, htpm⟩ := hstep.machine
        exact ⟨⟨halike, rfl, htpm⟩, congrArg (· + 1) h.flowIndex_eq, rfl, rfl⟩

/-- The whole run, if it finishes. -/
theorem finish (h : run.Mirrors other) (hfinished : run.finish.status = .finished) :
    run.finish.Mirrors other.finish := by
  -- a step that aborts is the last one, so none does
  induction run using Run.finish.induct generalizing other with
  | case1 run after hnext ih =>
    have hok (reason : BootError) : run.next.1.status ≠ .aborted reason := by
      rw [hnext, status_of_next hnext]
      intro hrunning
      cases hrunning
    obtain ⟨hmirrors, hgo⟩ := h.next hok
    rw [hnext] at hmirrors hgo
    rw [finish_of_next hnext] at hfinished ⊢
    rw [finish_of_next (Prod.ext rfl hgo.symm)]
    exact ih hmirrors hfinished
  | case2 run after hnext =>
    rw [finish_of_last hnext] at hfinished ⊢
    have hok (reason : BootError) : run.next.1.status ≠ .aborted reason := by
      rw [hnext, hfinished]
      intro haborted
      cases haborted
    obtain ⟨hmirrors, hgo⟩ := h.next hok
    rw [hnext] at hmirrors hgo
    rw [finish_of_last (Prod.ext rfl hgo.symm)]
    exact hmirrors

end Mirrors

end Run

end MeasuredBoot
