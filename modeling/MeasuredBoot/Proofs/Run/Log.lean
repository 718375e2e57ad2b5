import MeasuredBoot.Proofs.Run.Books
import MeasuredBoot.Proofs.Run.Finish

/-!
# What actions log

The events that an action adds to the event log of a machine's module, and the locality of the module:

* `Machine.Booked.measure`: a measurement adds an event for every bank, and leaves the locality;
* `Action.Logs`: the events of an action, in all banks;
* `Machine.Stands`: where a machine stands, by the locality of its module and the event log;
* `Machine.Stands.initTpm`, `Machine.Stands.apply`: a start, and an action that measures.
-/

namespace MeasuredBoot

/-! ## Event log and locality of a machine -/

namespace Machine

/-- The event log of the module. -/
def log (m : Machine) : List Event :=
  match m.tpm with
  | some tpm => tpm.eventLog
  | none => []

theorem log_of_tpm {m : Machine} {tpm : Tpm} (h : m.tpm = some tpm) : m.log = tpm.eventLog := by
  rw [log, h]

theorem log_finish (m : Machine) : m.finish.log = m.log := by
  rw [log, log, finish]
  cases m.tpm <;> rfl

/-- The locality that the module was started at. -/
def locality? (m : Machine) : Option UInt8 := m.tpm.bind (·.locality)

theorem locality?_of_tpm {m : Machine} {tpm : Tpm} (h : m.tpm = some tpm) :
    m.locality? = tpm.locality := by
  rw [locality?, h]
  rfl

theorem locality?_finish (m : Machine) : m.finish.locality? = m.locality? := by
  rw [locality?, locality?, finish]
  cases m.tpm <;> rfl

end Machine

variable {as : Artifacts} {algs : List Algorithm} {m after : Machine} {actor : Actor}

theorem Machine.Booked.apply {action : Action} {result : Except BootError Outcome}
    (h : m.Booked as algs) (happly : action.apply m actor = (after, result)) : after.Booked as algs := by
  have heffect := action.effect_apply m actor
  rw [happly] at heffect
  exact h.effect heffect

/-- A measurement adds an event for every bank, and leaves the locality. -/
theorem Machine.Booked.measure {kind : EventKind} {pcr : UInt8} {bytes : ByteArray} {description : String}
    {record : MeasuredData} {outcome : Outcome} (h : m.Booked as algs)
    (hmeasure : m.measure kind pcr bytes description record = (after, .ok outcome)) :
    outcome = .measured record ∧ after.locality? = m.locality? ∧
      after.log = m.log ++ algs.map (record.event kind pcr bytes description) := by
  obtain ⟨-, tpm, htpm, rfl, hbooked⟩ := h
  obtain ⟨e, hfailed⟩ | ⟨tpm', commands, tpm₁, hsame, hcommands, -, hall, htaken⟩ :=
    m.measure_cases kind pcr bytes description record
  · rw [hfailed] at hmeasure
    cases hmeasure
  · obtain rfl : tpm = tpm' := Option.some.inj (htpm.symm.trans hsame)
    rw [MeasuredData.commands_eq _ _ _ _ _ hbooked.balanced.isHash] at hcommands
    cases hcommands
    rw [htaken] at hmeasure
    cases hmeasure
    refine ⟨rfl, ?_, ?_⟩
    · have hkept : tpm₁.locality = tpm.locality :=
        Tpm.locality_of_applyAll hall (record.init_not_mem_entries kind pcr bytes description _)
      rw [locality?_of_tpm htpm]
      exact hkept
    · rw [log_of_tpm htpm]
      exact (hbooked.balanced.measure hall).2

/-- Where a machine stands: its artifacts and banks, with the books kept, the locality that its module was
started at, and the event log. -/
structure Machine.Stands (as : Artifacts) (algs : List Algorithm) (locality : Option UInt8)
    (log : List Event) (m : Machine) : Prop where
  booked : m.Booked as algs
  locality_eq : m.locality? = locality
  log_eq : m.log = log

/-! ## Actions -/

namespace Action

/-- The action neither starts the module nor switches to another flow. -/
def Measuring : Action → Prop
  | switchTo _ | initTpm _ => False
  | panic _ | extend _ _ | event _ _ _ => True

/-- The events that log an extension by the bytes of data, none if there are no bytes. -/
def extensions (algs : List Algorithm) (actor : Actor) (pcr : UInt8) (source : DataSource) (data : Data)
    (bytes : ByteArray) : List Event :=
  if bytes.isEmpty then []
  else algs.map (MeasuredData.event { data, source := some source, actor } .extend pcr bytes source.text)

/-- The events that an action adds, in banks of some algorithms, when it does not fail. -/
inductive Logs (as : Artifacts) (algs : List Algorithm) : Action → List Event → Prop where
  | extend {pcr : UInt8} {source : DataSource} {data : Data} {bytes : ByteArray} (actor : Actor)
    (hfetch : source.fetch as = .ok (data, bytes)) :
    Logs as algs (.extend pcr source) (extensions algs actor pcr source data bytes)
  | event {pcr : UInt8} {source : DataSource} {description : String} {data : Data} {bytes : ByteArray}
    (actor : Actor) (hfetch : source.fetch as = .ok (data, bytes)) :
    Logs as algs (.event pcr source description)
      (algs.map (MeasuredData.event { data, source := some source, actor } .informational pcr bytes
        description))
  /-- Data that cannot be fetched is not logged. -/
  | skipped {pcr : UInt8} {source : DataSource} {description : String} {e : BootError}
    (hfetch : source.fetch as = .error e) : Logs as algs (.event pcr source description) []

end Action

namespace Machine.Stands

variable {locality : Option UInt8} {log : List Event} {outcome : Outcome}

theorem finish (h : m.Stands as algs locality log) : m.finish.Stands as algs locality log where
  booked := (kept_booked as algs).finish h.booked
  locality_eq := m.locality?_finish.trans h.locality_eq
  log_eq := m.log_finish.trans h.log_eq

/-- A start that does not fail leaves the module at the locality, and logs nothing. -/
theorem initTpm {wanted : UInt8} (h : m.Stands as algs locality log)
    (happly : (Action.initTpm wanted).apply m actor = (after, .ok outcome)) :
    outcome.flow? = none ∧ after.Stands as algs (some wanted) log := by
  have hbooked := h.booked.apply happly
  obtain ⟨-, tpm, htpm, -⟩ := h.booked
  rw [Action.apply, withTpm_eq htpm] at happly
  cases hresult : (tpm.initLazy wanted actor.coords).2 with
  | error e =>
    rw [hresult] at happly
    cases happly
  | ok started =>
    rw [hresult] at happly
    cases happly
    refine ⟨rfl, hbooked, Tpm.locality_initLazy hresult, ?_⟩
    exact (tpm.eventLog_initLazy ..).trans ((log_of_tpm htpm).symm.trans h.log_eq)

theorem measure {kind : EventKind} {pcr : UInt8} {bytes : ByteArray} {description : String}
    {record : MeasuredData} (h : m.Stands as algs locality log) (hbooked : after.Booked as algs)
    (hmeasure : m.measure kind pcr bytes description record = (after, .ok outcome)) :
    outcome.flow? = none ∧
      after.Stands as algs locality (log ++ algs.map (record.event kind pcr bytes description)) := by
  obtain ⟨rfl, hlocality, hlog⟩ := h.booked.measure hmeasure
  refine ⟨rfl, hbooked, hlocality.trans h.locality_eq, ?_⟩
  rw [hlog, h.log_eq]

/-- An action that neither starts the module nor switches to another flow, when it does not fail. -/
theorem apply {action : Action} (h : m.Stands as algs locality log) (hmeasuring : action.Measuring)
    (happly : action.apply m actor = (after, .ok outcome)) :
    outcome.flow? = none ∧ ∃ events, action.Logs as algs events ∧
      after.Stands as algs locality (log ++ events) := by
  have hbooked := h.booked.apply happly
  obtain rfl : m.artifacts = as := h.booked.1
  cases action with
  | switchTo => exact hmeasuring.elim
  | initTpm => exact hmeasuring.elim
  | panic => cases happly
  | extend pcr source =>
    rw [Action.apply] at happly
    cases hfetch : source.fetch m.artifacts with
    | error e =>
      rw [hfetch] at happly
      cases happly
    | ok fetched =>
      obtain ⟨data, bytes⟩ := fetched
      rw [hfetch] at happly
      dsimp only at happly
      split at happly
      · rename_i hempty
        cases happly
        refine ⟨rfl, _, .extend actor hfetch, ?_⟩
        rwa [Action.extensions, if_pos hempty, List.append_nil]
      · rename_i hbytes
        obtain ⟨hnone, hafter⟩ := h.measure hbooked happly
        refine ⟨hnone, _, .extend actor hfetch, ?_⟩
        rwa [Action.extensions, if_neg hbytes]
  | event pcr source description =>
    rw [Action.apply] at happly
    cases hfetch : source.fetch m.artifacts with
    | error e =>
      rw [hfetch] at happly
      cases happly
      refine ⟨rfl, [], .skipped hfetch, ?_⟩
      rwa [List.append_nil]
    | ok fetched =>
      obtain ⟨data, bytes⟩ := fetched
      rw [hfetch] at happly
      obtain ⟨hnone, hafter⟩ := h.measure hbooked happly
      exact ⟨hnone, _, .event actor hfetch, hafter⟩

end Machine.Stands

end MeasuredBoot
