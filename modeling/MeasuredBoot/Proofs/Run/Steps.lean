import MeasuredBoot.Run
import MeasuredBoot.Proofs.Tpm.Transaction

/-!
# What a run does to the machine

* `Machine.Effect`: the machines that an action can leave behind, among them the one it found;
* `Action.effect_apply`: every action has one of these effects;
* `Run.Reaches`: the points of a run, which `Run.next` leads to;
* `Machine.Steady.take`: what the effects preserve holds after a step;
* `Machine.Kept.reaches`: what effects, changes of the flow and the end of the run preserve holds
  at every point of a run.
-/

namespace MeasuredBoot

/-! ## Actions -/

namespace Machine

/-- What an action can do to a machine. -/
inductive Effect (m : Machine) (actor : Actor) : Machine → Prop where
  | none : Effect m actor m
  /-- The module is asked to start. -/
  | started {tpm : Tpm} (htpm : m.tpm = some tpm) (locality : UInt8) :
    Effect m actor { m with tpm := some (tpm.initLazy locality actor.coords).1 }
  /-- The module takes the batch of a measurement of bytes of the artifacts. -/
  | measured {tpm after : Tpm} {record : MeasuredData} {kind : EventKind} {pcr : UInt8}
    {bytes : ByteArray} {description : String} {commands : List Command}
    (htpm : m.tpm = some tpm) (hactor : record.actor = actor)
    (hbytes : record.data.bytes m.artifacts = .ok bytes)
    (hcommands : record.commands kind pcr bytes description tpm.algorithms = .ok commands)
    (hopen : tpm.finished = false) (happly : tpm.applyAll commands = .ok after) :
    Effect m actor
      { m with
        tpm := some { after with commandLog := tpm.commandLog ++ commands.map (⟨·, actor.coords⟩) }
        measured := m.measured ++ [record] }

theorem withTpm_eq {m : Machine} {tpm : Tpm} (h : m.tpm = some tpm)
    (act : Tpm → Tpm × Except TpmError Unit) :
    m.withTpm act = ({ m with tpm := some (act tpm).1 }, (act tpm).2.mapError .tpm) := by
  rw [withTpm, h]

theorem withTpm_of_ok {m : Machine} {tpm after : Tpm} {act : Tpm → Tpm × Except TpmError Unit}
    (h : m.tpm = some tpm) (hact : act tpm = (after, .ok ())) :
    m.withTpm act = ({ m with tpm := some after }, .ok ()) := by
  rw [withTpm_eq h, hact]
  rfl

/-- What leaves the module as it is leaves the machine as it is. -/
theorem withTpm_of_error {m : Machine} {tpm : Tpm} {act : Tpm → Tpm × Except TpmError Unit}
    {e : TpmError} (h : m.tpm = some tpm) (hact : act tpm = (tpm, .error e)) :
    m.withTpm act = (m, .error (.tpm e)) := by
  have hsame : { m with tpm := some tpm } = m := by rw [← h]
  rw [withTpm_eq h, hact]
  show ({ m with tpm := some tpm }, _) = _
  rw [hsame]
  rfl

/-- A measurement sends its commands as one batch, and is remembered if the module takes them. -/
theorem measure_eq {m : Machine} {tpm : Tpm} {kind : EventKind} {pcr : UInt8} {bytes : ByteArray}
    {description : String} {record : MeasuredData} {commands : List Command} (htpm : m.tpm = some tpm)
    (hcommands : record.commands kind pcr bytes description tpm.algorithms = .ok commands) :
    m.measure kind pcr bytes description record =
      ({ m with
          tpm := some (tpm.send commands record.actor.coords).1
          measured := m.measured ++
            if (tpm.send commands record.actor.coords).2.isOk then [record] else [] },
        ((tpm.send commands record.actor.coords).2.mapError .tpm).map fun _ => .measured record) := by
  rw [measure, withTpm_eq htpm]
  rw [hcommands]
  dsimp only
  cases (tpm.send commands record.actor.coords).2 with
  | error e =>
    rw [Except.isOk, Except.toBool, if_neg Bool.false_ne_true, List.append_nil]
    rfl
  | ok => rfl

/-- An open module that can apply the commands of a measurement takes it. -/
theorem measure_of_applyAll {m : Machine} {tpm after : Tpm} {kind : EventKind} {pcr : UInt8}
    {bytes : ByteArray} {description : String} {record : MeasuredData} {commands : List Command}
    (htpm : m.tpm = some tpm)
    (hcommands : record.commands kind pcr bytes description tpm.algorithms = .ok commands)
    (hopen : tpm.finished = false) (happly : tpm.applyAll commands = .ok after) :
    m.measure kind pcr bytes description record =
      ({ m with
          tpm := some
            { after with commandLog := tpm.commandLog ++ commands.map (⟨·, record.actor.coords⟩) }
          measured := m.measured ++ [record] }, .ok (.measured record)) := by
  rw [measure_eq htpm hcommands, Tpm.send_of_applyAll record.actor.coords happly hopen]
  rfl

/-- A measurement fails and changes nothing, or the module takes all its commands. -/
theorem measure_cases (m : Machine) (kind : EventKind) (pcr : UInt8) (bytes : ByteArray)
    (description : String) (record : MeasuredData) :
    (∃ e, m.measure kind pcr bytes description record = (m, .error e)) ∨
    ∃ tpm commands after, m.tpm = some tpm ∧
      record.commands kind pcr bytes description tpm.algorithms = .ok commands ∧
      tpm.finished = false ∧ tpm.applyAll commands = .ok after ∧
      m.measure kind pcr bytes description record =
        ({ m with
            tpm := some
              { after with
                commandLog := tpm.commandLog ++ commands.map (⟨·, record.actor.coords⟩) }
            measured := m.measured ++ [record] }, .ok (.measured record)) := by
  cases htpm : m.tpm with
  | none =>
    refine .inl ⟨.chainMissing .tpm, ?_⟩
    simp only [measure, withTpm, htpm]
  | some tpm =>
    cases hcommands : record.commands kind pcr bytes description tpm.algorithms with
    | error e =>
      refine .inl ⟨.tpm e, ?_⟩
      rw [measure, withTpm_of_error (e := e) htpm]
      rw [hcommands]
    | ok commands =>
      obtain ⟨e, hrefused⟩ | ⟨after, hopen, happly, -⟩ := tpm.send_cases commands record.actor.coords
      · refine .inl ⟨.tpm e, ?_⟩
        rw [measure, withTpm_of_error (e := e) htpm]
        rw [hcommands]
        exact hrefused
      · exact .inr ⟨tpm, commands, after, rfl, hcommands, hopen, happly,
          measure_of_applyAll htpm hcommands hopen happly⟩

/-- The effect of a measurement of bytes of the artifacts. -/
theorem effect_measure (m : Machine) (record : MeasuredData) {bytes : ByteArray}
    (hbytes : record.data.bytes m.artifacts = .ok bytes) (kind : EventKind) (pcr : UInt8)
    (description : String) :
    m.Effect record.actor (m.measure kind pcr bytes description record).1 := by
  obtain ⟨_, hfailed⟩ | ⟨tpm, commands, after, htpm, hcommands, hopen, happly, htaken⟩ :=
    m.measure_cases kind pcr bytes description record
  · rw [hfailed]
    exact .none
  · rw [htaken]
    exact .measured htpm rfl hbytes hcommands hopen happly

end Machine

theorem DataSource.bytes_of_fetch {source : DataSource} {as : Artifacts} {data : Data}
    {bytes : ByteArray} (h : source.fetch as = .ok (data, bytes)) : data.bytes as = .ok bytes := by
  obtain ⟨located, hlocated, h⟩ := exists_ok_of_bind h
  obtain ⟨read, hread, h⟩ := exists_ok_of_bind h
  cases h
  cases hbytes : data.bytes as with
  | error e =>
    rw [hbytes] at hread
    cases hread
  | ok bytes =>
    rw [hbytes] at hread
    cases hread
    rfl

/-- Whatever an action is, and however it fails, it has one of the effects. -/
theorem Action.effect_apply (m : Machine) (actor : Actor) (action : Action) :
    m.Effect actor (action.apply m actor).1 := by
  cases action with
  | switchTo flow => exact .none
  | panic message => exact .none
  | initTpm locality =>
    rw [Action.apply]
    cases htpm : m.tpm with
    | none =>
      simp only [Machine.withTpm, htpm]
      exact .none
    | some tpm =>
      rw [Machine.withTpm_eq htpm]
      exact .started htpm locality
  | extend pcr source =>
    rw [Action.apply]
    cases hfetch : source.fetch m.artifacts with
    | error e => exact .none
    | ok fetched =>
      obtain ⟨data, bytes⟩ := fetched
      dsimp only
      split
      · exact .none
      · exact m.effect_measure { data, source := some source, actor }
          (DataSource.bytes_of_fetch hfetch) .extend pcr source.text
  | event pcr source description =>
    rw [Action.apply]
    cases hfetch : source.fetch m.artifacts with
    | error e => exact .none
    | ok fetched =>
      obtain ⟨data, bytes⟩ := fetched
      exact m.effect_measure { data, source := some source, actor }
        (DataSource.bytes_of_fetch hfetch) .informational pcr description

/-! ## Runs -/

/-- The points of a run that started somewhere. -/
inductive Run.Reaches (start : Run) : Run → Prop where
  | start : Reaches start start
  | next {run : Run} (h : Reaches start run) : Reaches start run.next.1

/-- A property of machines that no action changes. -/
def Machine.Steady (P : Machine → Prop) : Prop :=
  ∀ ⦃m after : Machine⦄ ⦃actor : Actor⦄, m.Effect actor after → P m → P after

namespace Machine.Steady

variable {P : Machine → Prop}

theorem act (hP : Steady P) {p : Progress} (h : P p.machine) (actor : Nat → Actor) (index : Nat)
    (action : Action) : P (p.act actor index action).machine := by
  have hafter := hP (action.effect_apply p.machine (actor index)) h
  rw [Progress.act]
  split
  · rename_i machine outcome happly
    rw [happly] at hafter
    rw [Progress.machine_note]
    exact hafter
  · rename_i machine reason happly
    rw [happly] at hafter
    exact hafter

theorem perform (hP : Steady P) {p : Progress} (h : P p.machine) (actor : Nat → Actor) (index : Nat)
    (actions : List Action) : P (p.perform actor index actions).machine := by
  induction actions generalizing p index with
  | nil => exact h
  | cons action rest ih =>
    have hafter := hP.act h actor index action
    rw [Progress.perform]
    split
    · exact hafter
    · exact ih hafter (index + 1)

theorem take (hP : Steady P) {run : Run} (h : P run.machine) (step : Step) :
    P (run.take step).machine := by
  rw [Run.take]
  split
  · exact h
  · exact hP.perform (p := { machine := run.machine }) h ..

end Machine.Steady

/-- A property of machines that a run keeps, whatever its flow is. -/
structure Machine.Kept (P : Machine → Prop) : Prop where
  effect {m after : Machine} {actor : Actor} : m.Effect actor after → P m → P after
  flow {m : Machine} (flow : Flow) : P m → P { m with flow := some flow }
  finish {m : Machine} : P m → P m.finish

namespace Machine.Kept

variable {P : Machine → Prop}

theorem steady (hP : Kept P) : Steady P := fun _ _ _ => hP.effect

theorem proceed (hP : Kept P) {run : Run} (h : P run.machine) (next : Option Flow) :
    P (run.proceed next).machine := by
  cases next with
  | none => exact h
  | some flow => exact hP.flow flow h

theorem next (hP : Kept P) {run : Run} (h : P run.machine) : P run.next.1.machine := by
  rw [Run.next]
  split
  · exact h
  split
  · exact hP.finish h
  split
  · exact hP.finish h
  rename_i flow _ _ step _
  have hstep := hP.steady.take h step
  dsimp only
  split
  · exact hP.finish hstep
  · exact hP.proceed (show P (run.record flow step (run.take step)).machine from hstep) _

/-- What a run keeps holds at all its points. -/
theorem reaches (hP : Kept P) {start run : Run} (hrun : start.Reaches run) (h : P start.machine) :
    P run.machine := by
  induction hrun with
  | start => exact h
  | next _ ih => exact hP.next ih

end Machine.Kept

end MeasuredBoot
