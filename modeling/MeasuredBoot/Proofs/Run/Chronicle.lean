import MeasuredBoot.Proofs.Run.Log
import Mathlib.Data.Prod.Lex

/-!
# One story in four logs

A run appends to the records of its steps, the machine to the measured data, and the module to its event log
and its command log. At every point of a run from a new module they tell the same, in the order of the places
that the actions have in the run (`Coordinates.place`).

* `Machine.Adds`, `Machine.Booked.adds`: what an action adds to the logs of the machine and of its module;
* `Machine.Chronicle`: the places in these logs are in order, and all before a given one;
* `Progress.Tells`, `Run.Tells`: what was added since the start of a step, and of a run, is in the records;
* `Run.logs_agree`: the four logs at every point of a run.
-/

namespace MeasuredBoot

/-! ## Places -/

/-- The coordinates in lexicographic order. -/
def Coordinates.place (c : Coordinates) : ℕ ×ₗ ℕ ×ₗ ℕ :=
  toLex (c.flowIndex, toLex (c.stepIndex, c.actionIndex))

theorem Coordinates.place_lt_iff {c d : Coordinates} : c.place < d.place ↔
    c.flowIndex < d.flowIndex ∨ c.flowIndex = d.flowIndex ∧
      (c.stepIndex < d.stepIndex ∨ c.stepIndex = d.stepIndex ∧ c.actionIndex < d.actionIndex) := by
  rw [place, place, Prod.Lex.toLex_lt_toLex, Prod.Lex.toLex_lt_toLex]

/-- The place of a step in a run. -/
def StepRecord.place (record : StepRecord) : ℕ ×ₗ ℕ := toLex (record.flowIndex, record.stepIndex)

/-! ## What an action adds -/

/-- The commands that an action can send. -/
def Action.Sends : Action → Command → Prop
  | .initTpm locality, .init started => started = locality
  | .extend pcr _, .extend extended _ _ => extended = pcr
  | .extend pcr source, .eventLogAdd e => e.pcr = pcr ∧ e.kind = .extend ∧ e.description = source.text
  | .event pcr _ description, .eventLogAdd e =>
    e.pcr = pcr ∧ e.kind = .informational ∧ e.description = description
  | _, _ => False

/-- The data that an action measured. -/
def Outcome.record? : Outcome → Option MeasuredData
  | .measured record => some record
  | .done | .skipped _ | .switched _ => none

/-- The data that an event carries, and its bank. -/
def Event.heading (e : Event) : Option MeasuredData × Algorithm := (e.measured, e.alg)

/-- The events of measured data: one for each bank. -/
def MeasuredData.headings (algs : List Algorithm) (record : MeasuredData) :
    List (Option MeasuredData × Algorithm) :=
  algs.map (some record, ·)

theorem Tpm.commandLog_initLazy (tpm : Tpm) (locality : UInt8) (cause : Coordinates) :
    ∃ sent, (tpm.initLazy locality cause).1.commandLog = tpm.commandLog ++ sent ∧
      ∀ entry ∈ sent, entry = ⟨.init locality, cause⟩ := by
  obtain hsame | ⟨started, -, htaken⟩ := tpm.initLazy_started locality cause
  · rw [hsame]
    exact ⟨[], (List.append_nil _).symm, List.forall_mem_nil _⟩
  · rw [htaken]
    exact ⟨_, rfl, fun entry hmem => List.mem_singleton.mp hmem⟩

namespace Machine

/-- The command log of the module. -/
def commands (m : Machine) : List LoggedCommand :=
  match m.tpm with
  | some tpm => tpm.commandLog
  | none => []

theorem commands_of_tpm {m : Machine} {tpm : Tpm} (h : m.tpm = some tpm) : m.commands = tpm.commandLog := by
  rw [commands, h]

theorem commands_finish (m : Machine) : m.finish.commands = m.commands := by
  rw [commands, commands, finish]
  cases m.tpm <;> rfl

/-- What an action adds to the logs of a machine with banks for some algorithms: it may measure data, which
has an event in every bank, and all the commands that it sends are its own. -/
structure Adds (algs : List Algorithm) (actor : Actor) (action : Action) (m after : Machine)
    (measured : Option MeasuredData) : Prop where
  actor_eq : ∀ record, measured = some record → record.actor = actor
  measured_eq : after.measured = m.measured ++ measured.toList
  events_eq : after.log.map Event.heading =
    m.log.map Event.heading ++ measured.toList.flatMap (·.headings algs)
  sent : ∃ sent, after.commands = m.commands ++ sent ∧
    ∀ entry ∈ sent, entry.cause = actor.coords ∧ action.Sends entry.command

variable {as : Artifacts} {algs : List Algorithm} {m after : Machine} {actor : Actor} {action : Action}
  {result : Except BootError Outcome}

theorem Adds.nothing (algs : List Algorithm) (actor : Actor) (action : Action) (m : Machine) :
    m.Adds algs actor action m none where
  actor_eq := nofun
  measured_eq := (List.append_nil _).symm
  events_eq := (List.append_nil _).symm
  sent := ⟨[], (List.append_nil _).symm, List.forall_mem_nil _⟩

theorem Adds.measure {kind : EventKind} {pcr : UInt8} {bytes : ByteArray} {description : String}
    (record : MeasuredData) (h : m.Booked as algs)
    (hsends : ∀ alg, ∀ command ∈ record.entries kind pcr bytes description alg, action.Sends command)
    (hmeasure : m.measure kind pcr bytes description record = (after, result)) :
    m.Adds algs record.actor action after (result.toOption.bind (·.record?)) := by
  obtain ⟨e, hfailed⟩ | ⟨tpm, commands, tpm₁, htpm, hcommands, -, -, htaken⟩ :=
    m.measure_cases kind pcr bytes description record
  · rw [hfailed] at hmeasure
    cases hmeasure
    exact .nothing ..
  · rw [htaken] at hmeasure
    cases hmeasure
    have hlog := (h.measure htaken).2.2
    obtain ⟨-, tpm', htpm', rfl, hbooked⟩ := h
    obtain rfl : tpm' = tpm := Option.some.inj (htpm'.symm.trans htpm)
    rw [MeasuredData.commands_eq _ _ _ _ _ hbooked.balanced.isHash] at hcommands
    cases hcommands
    refine ⟨fun _ h => Option.some.inj h ▸ rfl, rfl, ?_, _,
      congrArg (· ++ _) (commands_of_tpm htpm).symm, ?_⟩
    · rw [hlog, List.map_append, List.map_map]
      simp only [Except.toOption, Option.bind_some, Outcome.record?, Option.toList_some,
        List.flatMap_singleton]
      rfl
    · intro entry hmem
      obtain ⟨command, hcommand, rfl⟩ := List.mem_map.mp hmem
      obtain ⟨alg, -, hcommand⟩ := List.mem_flatMap.mp hcommand
      exact ⟨rfl, hsends alg command hcommand⟩

/-- What an action adds, however it ends. -/
theorem Booked.adds (h : m.Booked as algs) (happly : action.apply m actor = (after, result)) :
    m.Adds algs actor action after (result.toOption.bind (·.record?)) := by
  cases action with
  | switchTo | panic =>
    cases happly
    exact .nothing ..
  | initTpm locality =>
    obtain ⟨-, tpm, htpm, -⟩ := h
    rw [Action.apply, withTpm_eq htpm] at happly
    obtain ⟨sent, hcommands, hsent⟩ := tpm.commandLog_initLazy locality actor.coords
    have hnone : result.toOption.bind (·.record?) = none := by
      cases happly
      cases (tpm.initLazy locality actor.coords).2 <;> rfl
    cases happly
    rw [hnone]
    have hactor := (Adds.nothing algs actor (.initTpm locality) m).actor_eq
    refine ⟨hactor, (List.append_nil _).symm, ?_, sent, ?_, fun entry hmem => ?_⟩
    · rw [log_of_tpm htpm]
      exact (congrArg _ (tpm.eventLog_initLazy ..)).trans (List.append_nil _).symm
    · rw [commands_of_tpm htpm]
      exact hcommands
    · rw [hsent entry hmem]
      exact ⟨rfl, rfl⟩
  | extend pcr source =>
    rw [Action.apply] at happly
    cases hfetch : source.fetch m.artifacts with
    | error e =>
      rw [hfetch] at happly
      cases happly
      exact .nothing ..
    | ok fetched =>
      obtain ⟨data, bytes⟩ := fetched
      rw [hfetch] at happly
      dsimp only at happly
      split at happly
      · cases happly
        exact .nothing ..
      · refine Adds.measure { data, source := some source, actor } h (fun alg => ?_) happly
        simp [MeasuredData.entries, MeasuredData.event, Action.Sends]
  | event pcr source description =>
    rw [Action.apply] at happly
    cases hfetch : source.fetch m.artifacts with
    | error e =>
      rw [hfetch] at happly
      cases happly
      exact .nothing ..
    | ok fetched =>
      obtain ⟨data, bytes⟩ := fetched
      rw [hfetch] at happly
      refine Adds.measure { data, source := some source, actor } h (fun alg => ?_) happly
      simp [MeasuredData.entries, MeasuredData.event, Action.Sends]

/-! ## Logs in order -/

/-- The logs of a machine are in the order of the places of their actions, which are all before a given one,
and the module has an event in every bank for all that was measured. -/
structure Chronicle (as : Artifacts) (algs : List Algorithm) (now : Coordinates) (m : Machine) : Prop where
  booked : m.Booked as algs
  events_eq : m.log.map Event.heading = m.measured.flatMap (·.headings algs)
  measured_sorted : m.measured.Pairwise fun r r' => r.actor.coords.place < r'.actor.coords.place
  measured_before : ∀ record ∈ m.measured, record.actor.coords.place < now.place
  commands_sorted : m.commands.Pairwise fun c c' => c.cause.place ≤ c'.cause.place
  commands_before : ∀ entry ∈ m.commands, entry.cause.place < now.place

namespace Chronicle

variable {now next : Coordinates}

theorem later (h : m.Chronicle as algs now) (hlt : now.place < next.place) : m.Chronicle as algs next :=
  { h with
    measured_before := fun record hmem => (h.measured_before record hmem).trans hlt
    commands_before := fun entry hmem => (h.commands_before entry hmem).trans hlt }

theorem finish (h : m.Chronicle as algs now) : m.finish.Chronicle as algs now where
  booked := (kept_booked as algs).finish h.booked
  events_eq := by
    rw [log_finish]
    exact h.events_eq
  measured_sorted := h.measured_sorted
  measured_before := h.measured_before
  commands_sorted := by
    rw [commands_finish]
    exact h.commands_sorted
  commands_before := by
    rw [commands_finish]
    exact h.commands_before

/-- An action adds to the logs what has its own place. -/
theorem apply (h : m.Chronicle as algs actor.coords) (happly : action.apply m actor = (after, result))
    (hlt : actor.coords.place < next.place) : after.Chronicle as algs next := by
  obtain ⟨hactor, hmeasured, hevents, sent, hcommands, hsent⟩ := h.booked.adds happly
  have hrecords : ∀ record ∈ (result.toOption.bind (·.record?)).toList, record.actor = actor :=
    fun record hmem => hactor record (Option.mem_toList.mp hmem)
  refine ⟨h.booked.apply happly, ?_, ?_, ?_, ?_, ?_⟩
  · rw [hevents, h.events_eq, hmeasured, List.flatMap_append]
  · rw [hmeasured, List.pairwise_append]
    refine ⟨h.measured_sorted, ?_, fun record hmem record' hmem' => ?_⟩
    · cases result.toOption.bind (·.record?) with
      | none => exact .nil
      | some record => exact List.pairwise_singleton _ record
    · rw [hrecords record' hmem']
      exact h.measured_before record hmem
  · rw [hmeasured, List.forall_mem_append]
    refine ⟨fun record hmem => (h.measured_before record hmem).trans hlt, fun record hmem => ?_⟩
    rw [hrecords record hmem]
    exact hlt
  · rw [hcommands, List.pairwise_append]
    refine ⟨h.commands_sorted, List.pairwise_of_forall_mem_list ?_, fun entry hmem entry' hmem' => ?_⟩
    · intro entry hmem entry' hmem'
      rw [(hsent entry hmem).1, (hsent entry' hmem').1]
    · rw [(hsent entry' hmem').1]
      exact (h.commands_before entry hmem).le
  · rw [hcommands, List.forall_mem_append]
    refine ⟨fun entry hmem => (h.commands_before entry hmem).trans hlt, fun entry hmem => ?_⟩
    rw [(hsent entry hmem).1]
    exact hlt

end Chronicle

end Machine

/-! ## The actions of a step -/

namespace Progress

theorem measured_note (p : Progress) (index : Nat) (outcome : Outcome) :
    (p.note index outcome).measured = p.measured ++ outcome.record?.toList := by
  cases outcome with
  | measured record => rfl
  | done | skipped | switched => exact (List.append_nil _).symm

/-- An action is carried out once, and what it measured is noted. -/
theorem act_fields {p : Progress} {actor : Nat → Actor} {index : Nat} {action : Action} {after : Machine}
    {result : Except BootError Outcome} (h : action.apply p.machine (actor index) = (after, result)) :
    (p.act actor index action).machine = after ∧
      (p.act actor index action).performed = p.performed ++ [action] ∧
      (p.act actor index action).measured =
        p.measured ++ (result.toOption.bind (·.record?)).toList := by
  cases result with
  | error reason =>
    rw [act_of_error h]
    exact ⟨rfl, rfl, (List.append_nil _).symm⟩
  | ok outcome =>
    rw [act_of_ok h]
    exact ⟨machine_note .., performed_note .., measured_note ..⟩

theorem performed_act (p : Progress) (actor : Nat → Actor) (index : Nat) (action : Action) :
    (p.act actor index action).performed = p.performed ++ [action] :=
  (act_fields (Prod.eta (action.apply p.machine (actor index))).symm).2.1

/-- The machine after some actions of a step: what was added to its logs since the step started is what the
step measured, and what the actions so far have sent. -/
structure Tells (as : Artifacts) (algs : List Algorithm) (start : Machine) (actor : Nat → Actor)
    (p : Progress) : Prop where
  chronicle : p.machine.Chronicle as algs (actor p.performed.length).coords
  measured_eq : p.machine.measured = start.measured ++ p.measured
  sent : ∃ sent, p.machine.commands = start.commands ++ sent ∧ ∀ entry ∈ sent, ∃ i action,
    entry.cause = (actor i).coords ∧ p.performed[i]? = some action ∧ action.Sends entry.command

namespace Tells

variable {as : Artifacts} {algs : List Algorithm} {start : Machine} {actor : Nat → Actor} {p : Progress}

theorem act (h : p.Tells as algs start actor)
    (hactor : ∀ i, (actor i).coords.place < (actor (i + 1)).coords.place) (action : Action) :
    (p.act actor p.performed.length action).Tells as algs start actor := by
  cases happly : action.apply p.machine (actor p.performed.length) with
  | mk after result =>
    obtain ⟨hmachine, hperformed, hmeasured⟩ := act_fields happly
    have hadds := h.chronicle.booked.adds happly
    obtain ⟨before, hbefore, hcaused⟩ := h.sent
    obtain ⟨sent, hsent, howned⟩ := hadds.sent
    refine ⟨?_, ?_, before ++ sent, ?_, ?_⟩
    · rw [hmachine, hperformed, List.length_append]
      exact h.chronicle.apply happly (hactor _)
    · rw [hmachine, hmeasured, hadds.measured_eq, h.measured_eq, List.append_assoc]
    · rw [hmachine, hsent, hbefore, List.append_assoc]
    · rw [hperformed, List.forall_mem_append]
      constructor
      · intro entry hmem
        obtain ⟨i, other, hcause, hother, hsends⟩ := hcaused entry hmem
        have hi := (List.getElem?_eq_some_iff.mp hother).1
        exact ⟨i, other, hcause, (List.getElem?_append_left hi).trans hother, hsends⟩
      · intro entry hmem
        obtain ⟨hcause, hsends⟩ := howned entry hmem
        exact ⟨p.performed.length, action, hcause, List.getElem?_concat_length, hsends⟩

/-- The actions of a step up to the first one that fails. -/
theorem perform {index : Nat} (h : p.Tells as algs start actor) (hindex : p.performed.length = index)
    (hactor : ∀ i, (actor i).coords.place < (actor (i + 1)).coords.place) (actions : List Action) :
    (p.perform actor index actions).Tells as algs start actor := by
  induction actions generalizing p index with
  | nil => exact h
  | cons action rest ih =>
    subst hindex
    have hact := h.act hactor action
    rw [Progress.perform]
    split
    · exact hact
    · refine ih hact ?_
      rw [performed_act, List.length_append, List.length_singleton]

end Tells

end Progress

/-! ## Runs -/

/-- The command was sent by an action of the step. -/
def StepRecord.Sends (record : StepRecord) (entry : LoggedCommand) : Prop :=
  record.flowIndex = entry.cause.flowIndex ∧ record.stepIndex = entry.cause.stepIndex ∧
    ∃ action, record.actions[entry.cause.actionIndex]? = some action ∧ action.Sends entry.command

namespace Run

/-- The place of the next action. -/
def here (run : Run) : Coordinates := ⟨run.flowIndex, run.stepIndex, 0⟩

/-- The records of a run stand in their order before a place, and account for what was measured and for all
commands. -/
structure Tells (as : Artifacts) (algs : List Algorithm) (now : Coordinates) (run : Run) : Prop where
  chronicle : run.machine.Chronicle as algs now
  measured_eq : run.machine.measured = run.log.flatMap (·.measured)
  records_sorted : run.log.Pairwise fun r r' => r.place < r'.place
  records_before : ∀ record ∈ run.log, record.place < toLex (now.flowIndex, now.stepIndex)
  caused : ∀ entry ∈ run.machine.commands, ∃ record ∈ run.log, record.Sends entry

variable {as : Artifacts} {algs : List Algorithm} {run : Run} {now : Coordinates}

theorem actor_lt (run : Run) (step : Step) (i : Nat) :
    (run.actor step i).coords.place < (run.actor step (i + 1)).coords.place :=
  Coordinates.place_lt_iff.mpr (.inr ⟨rfl, .inr ⟨rfl, Nat.lt_succ_self i⟩⟩)

theorem Tells.take (h : run.Tells as algs run.here) (step : Step) :
    (run.take step).Tells as algs run.machine (run.actor step) := by
  have hstart : Progress.Tells as algs run.machine (run.actor step) { machine := run.machine } :=
    ⟨h.chronicle, (List.append_nil _).symm, [], (List.append_nil _).symm, List.forall_mem_nil _⟩
  rw [Run.take]
  split
  · exact ⟨hstart.chronicle, hstart.measured_eq, hstart.sent⟩
  · exact hstart.perform rfl (run.actor_lt step) _

/-- The record of a step accounts for what the step added. -/
theorem Tells.record (h : run.Tells as algs run.here) (flow : Flow) (step : Step) :
    (run.record flow step (run.take step)).Tells as algs ⟨run.flowIndex, run.stepIndex + 1, 0⟩ := by
  obtain ⟨hchronicle, hmeasured, sent, hcommands, hsent⟩ := h.take step
  refine ⟨?_, ?_, ?_, ?_, ?_⟩
  · exact hchronicle.later (Coordinates.place_lt_iff.mpr (.inr ⟨rfl, .inl (Nat.lt_succ_self _)⟩))
  · show (run.take step).machine.measured = List.flatMap StepRecord.measured (run.log ++ [_])
    rw [hmeasured, h.measured_eq, List.flatMap_append, List.flatMap_singleton]
  · refine List.pairwise_append.mpr ⟨h.records_sorted, List.pairwise_singleton _ _, ?_⟩
    intro record hmem other hlast
    rw [List.mem_singleton.mp hlast]
    exact h.records_before record hmem
  · have hlt : (toLex (run.flowIndex, run.stepIndex) : ℕ ×ₗ ℕ) < toLex (run.flowIndex, run.stepIndex + 1) :=
      Prod.Lex.toLex_lt_toLex.mpr (.inr ⟨rfl, Nat.lt_succ_self _⟩)
    exact List.forall_mem_append.mpr
      ⟨fun record hmem => (h.records_before record hmem).trans hlt, List.forall_mem_singleton.mpr hlt⟩
  · show ∀ entry ∈ (run.take step).machine.commands, _
    rw [hcommands, List.forall_mem_append]
    constructor
    · intro entry hmem
      obtain ⟨record, hrecord, hsends⟩ := h.caused entry hmem
      exact ⟨record, List.mem_append_left _ hrecord, hsends⟩
    · intro entry hmem
      obtain ⟨i, action, hcause, hperformed, hsends⟩ := hsent entry hmem
      refine ⟨_, List.mem_append_right _ (List.mem_singleton.mpr rfl), ?_⟩
      rw [StepRecord.Sends, hcause]
      exact ⟨rfl, rfl, action, hperformed, hsends⟩

theorem Tells.close (h : run.Tells as algs now) (status : RunStatus) :
    (run.close status).Tells as algs now where
  chronicle := h.chronicle.finish
  measured_eq := h.measured_eq
  records_sorted := h.records_sorted
  records_before := h.records_before
  caused := by
    show ∀ entry ∈ run.machine.finish.commands, _
    rw [Machine.commands_finish]
    exact h.caused

theorem Tells.proceed (h : run.Tells as algs ⟨run.flowIndex, run.stepIndex + 1, 0⟩) (next : Option Flow) :
    (run.proceed next).Tells as algs (run.proceed next).here := by
  cases next with
  | none => exact ⟨h.chronicle, h.measured_eq, h.records_sorted, h.records_before, h.caused⟩
  | some flow =>
    have hbooked := (Machine.kept_booked as algs).flow flow h.chronicle.booked
    have hlater : run.machine.Chronicle as algs ⟨run.flowIndex + 1, 0, 0⟩ :=
      h.chronicle.later (Coordinates.place_lt_iff.mpr (.inl (Nat.lt_succ_self _)))
    have hlt : (toLex (run.flowIndex, run.stepIndex + 1) : ℕ ×ₗ ℕ) < toLex (run.flowIndex + 1, 0) :=
      Prod.Lex.toLex_lt_toLex.mpr (.inl (Nat.lt_succ_self _))
    exact ⟨{ hlater with booked := hbooked }, h.measured_eq, h.records_sorted,
      fun record hmem => (h.records_before record hmem).trans hlt, h.caused⟩

/-- The logs of a run agree, up to the place where the run stands unless it is over. -/
def Agrees (as : Artifacts) (algs : List Algorithm) (run : Run) : Prop :=
  ∃ now, run.Tells as algs now ∧ (run.status.isTerminal = false → now = run.here)

theorem Agrees.next (h : run.Agrees as algs) : run.next.1.Agrees as algs := by
  obtain ⟨now, htells, hnow⟩ := h
  obtain hterminal | hends | ⟨flow, step, hdue⟩ := run.due_cases
  · rw [next_of_isTerminal hterminal]
    exact ⟨now, htells, hnow⟩
  · rw [next_of_ends hends]
    exact ⟨now, htells.close .finished, nofun⟩
  · obtain rfl := hnow hdue.1
    have hrecord := htells.record flow step
    cases hfailure : (run.take step).failure with
    | some reason =>
      rw [next_of_failure hdue hfailure]
      exact ⟨_, hrecord.close (.aborted reason), nofun⟩
    | none =>
      rw [next_of_take hdue hfailure]
      exact ⟨_, hrecord.proceed _, fun _ => rfl⟩

/-- All data is measured with the same trust chain. -/
theorem measuredWith_tpm (log : RunLog) : log.measuredWith .tpm = log.flatMap (·.measured) :=
  List.filter_eq_self.mpr fun record _ => decide_eq_true (by cases record.chain; rfl)

/-- Of a machine with a new module that has measured nothing, at every point of its run: what the records of
the steps measured is what the machine measured; the records and the measured data are in the order of their
places; the event log has, for each of the measured data, one event in every bank; and the commands are in
the order of the places of their causes, each of which is the place of an action that sent it. -/
theorem logs_agree {algs : List Algorithm} {built : Tpm} {m : Machine} {run : Run}
    (hnew : built.IsNew algs) (hm : m.tpm = some built) (hmeasured : m.measured = [])
    (hrun : (ofMachine m).Reaches run) : ∃ tpm, run.machine.tpm = some tpm ∧
      run.log.measuredWith .tpm = run.machine.measured ∧
      (run.log.Pairwise fun r r' => r.place < r'.place) ∧
      (run.machine.measured.Pairwise fun r r' => r.actor.coords.place < r'.actor.coords.place) ∧
      (tpm.algorithms.Pairwise fun alg alg' => alg.id < alg'.id) ∧
      (∀ alg, alg ∈ tpm.algorithms ↔ alg ∈ algs) ∧
      (tpm.eventLog.map Event.heading = run.machine.measured.flatMap (·.headings tpm.algorithms)) ∧
      (tpm.commandLog.Pairwise fun c c' => c.cause.place ≤ c'.cause.place) ∧
      ∀ entry ∈ tpm.commandLog, ∃ record ∈ run.log, record.Sends entry := by
  have hstart : (ofMachine m).Agrees m.artifacts built.algorithms := by
    obtain ⟨-, rfl⟩ := Tpm.of_withAlgorithms hnew.withAlgorithms
    refine ⟨(ofMachine m).here, ⟨⟨⟨rfl, _, hm, rfl, hnew.booked _⟩, ?_, ?_, ?_, ?_, ?_⟩, ?_, .nil, nofun, ?_⟩,
      fun _ => rfl⟩
    all_goals simp [ofMachine, hmeasured, Machine.log_of_tpm hm, Machine.commands_of_tpm hm]
  obtain ⟨now, h, -⟩ : run.Agrees m.artifacts built.algorithms := by
    induction hrun with
    | start => exact hstart
    | next _ ih => exact ih.next
  obtain ⟨-, tpm, htpm, hbanks, -⟩ := h.chronicle.booked
  have hevents := h.chronicle.events_eq
  have hsorted := h.chronicle.commands_sorted
  have hcaused := h.caused
  rw [Machine.log_of_tpm htpm, ← hbanks] at hevents
  rw [Machine.commands_of_tpm htpm] at hsorted hcaused
  refine ⟨tpm, htpm, ?_, h.records_sorted, h.chronicle.measured_sorted, ?_, fun alg => ?_, hevents, hsorted,
    hcaused⟩
  · rw [measuredWith_tpm, h.measured_eq]
  · obtain ⟨-, hbuilt⟩ := Tpm.of_withAlgorithms hnew.withAlgorithms
    rw [hbanks, hbuilt]
    exact List.Pairwise.filter _ (by decide)
  · rw [hbanks]
    exact Tpm.mem_algorithms_iff hnew.withAlgorithms alg

/-- A machine that measures a byte, switches to another flow, logs a byte there and gives up. -/
def movesOn : Machine where
  tpm := some Tpm.fresh
  flow := some (.mk "first" [.static [.initTpm 0, .extend 0 (.bytes ⟨#[1]⟩), .switchTo (.mk "second" [
    .static [.event 1 (.bytes ⟨#[2]⟩) "two", .panic "stop"]])]])

/-- Its run after two steps, the second of which gave up. -/
def movedOn : Run := (ofMachine movesOn).next.1.next.1

theorem logs_agree_movesOn :
    movedOn.status = .aborted (.panic "stop") ∧ movedOn.log.length = 2 ∧ movedOn.machine.measured.length = 2 ∧
    ∃ tpm, movedOn.machine.tpm = some tpm ∧ movedOn.log.measuredWith .tpm = movedOn.machine.measured ∧
      (movedOn.log.Pairwise fun r r' => r.place < r'.place) ∧
      tpm.eventLog.map Event.heading = movedOn.machine.measured.flatMap (·.headings tpm.algorithms) ∧
      tpm.commandLog.length = 7 ∧ ∀ entry ∈ tpm.commandLog, ∃ record ∈ movedOn.log, record.Sends entry := by
  have hrun : (ofMachine movesOn).Reaches movedOn := .next (.next .start)
  obtain ⟨tpm, htpm, hmeasured, hrecords, -, -, -, hevents, -, hcaused⟩ :=
    logs_agree (.inl ⟨rfl, rfl⟩) (show movesOn.tpm = some Tpm.fresh from rfl) rfl hrun
  have hlength : movedOn.machine.tpm.map (·.commandLog.length) = some 7 := by decide +kernel
  rw [htpm] at hlength
  exact ⟨by decide +kernel, by decide +kernel, by decide +kernel, tpm, htpm, hmeasured, hrecords, hevents,
    Option.some.inj hlength, hcaused⟩

end Run

end MeasuredBoot
