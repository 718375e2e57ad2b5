import MeasuredBoot.Proofs.Tpm.Committed

/-!
# The order of committed commands

A module is started once, and only then does it have values to extend. Events are added before the start as
well as after it. So the commands that a module took are events, then the start, then extensions and events
in any order, and after its end there are no more.

* `Tpm.Phased`: commands in this order;
* `Tpm.Phased.apply`: one command more;
* `Tpm.commands_phased`: every module took its commands in this order, and it is started before it is used as
  long as no event comes first.
-/

namespace MeasuredBoot.Tpm

/-- Some commands in the order in which a module that is started at a locality, or not yet, takes them: events,
then the start, and then anything but another start. -/
def Phased (locality : Option UInt8) (commands : List Command) : Prop :=
  ∃ (early : List Event) (later : List Command),
    commands = early.map .eventLogAdd ++ locality.toList.map .init ++ later ∧
      (∀ other, .init other ∉ later) ∧ (locality = none → later = [])

/-- The module was started before it took any other command, and not again. -/
structure StartedFirst (tpm : Tpm) : Prop where
  commands : tpm.commands ≠ [] →
    ∃ locality later, tpm.commands = .init locality :: later ∧ ∀ other, .init other ∉ later
  events : tpm.eventLog ≠ [] → tpm.isInitialized = true

namespace Phased

variable {locality : Option UInt8} {commands : List Command}

theorem nil : Phased none [] := ⟨[], [], rfl, fun _ => List.not_mem_nil, fun _ => rfl⟩

/-- A module that was not started only took events. -/
theorem exists_events (h : Phased none commands) :
    ∃ early : List Event, commands = early.map .eventLogAdd := by
  obtain ⟨early, later, rfl, -, hlater⟩ := h
  refine ⟨early, ?_⟩
  rw [hlater rfl, List.append_nil]
  exact List.append_nil _

theorem start (h : Phased none commands) (l : UInt8) : Phased (some l) (commands ++ [.init l]) := by
  obtain ⟨early, rfl⟩ := h.exists_events
  exact ⟨early, [], (List.append_nil _).symm, fun _ => List.not_mem_nil, nofun⟩

/-- After the start, commands other than a start come last. -/
theorem concat {l : UInt8} {command : Command} (h : Phased (some l) commands)
    (hcommand : ∀ other, command ≠ .init other) : Phased (some l) (commands ++ [command]) := by
  obtain ⟨early, later, rfl, hno, -⟩ := h
  refine ⟨early, later ++ [command], List.append_assoc .., fun other hmem => ?_, nofun⟩
  obtain hlater | hlast := List.mem_append.mp hmem
  · exact hno other hlater
  · exact hcommand other (List.mem_singleton.mp hlast).symm

theorem eventLogAdd (h : Phased locality commands) (event : Event) :
    Phased locality (commands ++ [.eventLogAdd event]) := by
  cases locality with
  | some l => exact h.concat fun _ => nofun
  | none =>
    obtain ⟨early, rfl⟩ := h.exists_events
    refine ⟨early ++ [event], [], ?_, fun _ => List.not_mem_nil, fun _ => rfl⟩
    rw [List.map_append, List.append_nil]
    exact (List.append_nil _).symm

/-- One command more. A start finds a module that was not started, and an extension one that was. -/
theorem apply {tpm after : Tpm} {command : Command} (hreflects : tpm.Reflects commands)
    (h : Phased tpm.locality commands) (happly : tpm.apply command = .ok after) :
    Phased after.locality (commands ++ [command]) := by
  obtain ⟨l, pcrs, rfl, hnone, -, rfl⟩ | ⟨pcr, alg, digest, old, value, pcrs, rfl, -, hold, -, -, rfl⟩ |
    ⟨event, rfl, rfl⟩ := apply_cases happly
  · rw [hnone] at h
    exact h.start l
  · cases hlocality : tpm.locality with
    | none =>
      rw [(hreflects.unstarted hlocality).1] at hold
      cases hold
    | some l =>
      rw [hlocality] at h
      exact h.concat fun _ => nofun
  · exact h.eventLogAdd event

theorem kept : Kept fun tpm commands => tpm.Reflects commands ∧ Phased tpm.locality commands where
  relog h log finished := ⟨h.1.relog log finished, h.2⟩
  apply h happly := ⟨h.1.apply happly, h.2.apply h.1 happly⟩

end Phased

theorem Reached.phased {algs : List Algorithm} {tpm : Tpm} (h : Reached algs tpm) :
    Phased tpm.locality tpm.commands := by
  have hbuilt (new : Tpm) (hnew : withAlgorithms algs = .ok new) :
      new.Reflects [] ∧ Phased new.locality [] := by
    have hreflects := Reflects.of_built hnew
    obtain ⟨-, rfl⟩ := of_withAlgorithms hnew
    exact ⟨hreflects, .nil⟩
  exact (Phased.kept.of_reached hbuilt h).2

/-- A module is started before it is used unless its first command is an event. -/
theorem startedFirst_iff {tpm : Tpm} (hreflects : tpm.Reflects tpm.commands)
    (h : Phased tpm.locality tpm.commands) :
    tpm.StartedFirst ↔ ∀ event later, tpm.commands ≠ .eventLogAdd event :: later := by
  constructor
  · intro hfirst event later heq
    obtain ⟨locality, _, hstart, -⟩ := hfirst.commands (heq ▸ List.cons_ne_nil _ _)
    cases heq.symm.trans hstart
  · intro hno
    obtain ⟨early, later, hcommands, hother, hlater⟩ := h
    cases early with
    | cons event rest => exact absurd hcommands (hno event _)
    | nil =>
      cases hlocality : tpm.locality with
      | none =>
        -- nothing was committed, so that there are no events either
        rw [hlocality, hlater hlocality] at hcommands
        have hempty : tpm.commands = [] := hcommands
        refine ⟨fun h => absurd hempty h, fun h => absurd ?_ h⟩
        rw [hreflects.events, hempty]
        rfl
      | some locality =>
        rw [hlocality] at hcommands
        refine ⟨fun _ => ⟨locality, later, hcommands, hother⟩, fun _ => ?_⟩
        rw [isInitialized, hlocality]
        rfl

/-- A module that came from a fresh one in any way took events, then the start at its locality if it was
started, and then extensions and events. It was started before all other commands if, and only if, an event is
not the first of them. Once it is closed, it takes no commands. -/
theorem commands_phased {algs : List Algorithm} {tpm : Tpm} (h : Reached algs tpm) :
    Phased tpm.locality tpm.commands ∧
    (tpm.StartedFirst ↔ ∀ event later, tpm.commands ≠ .eventLogAdd event :: later) ∧
    (tpm.finished = true → ∀ cause, (∀ commands, (tpm.send commands cause).1 = tpm) ∧
      ∀ locality, (tpm.initLazy locality cause).1 = tpm) := by
  refine ⟨h.phased, startedFirst_iff h.reflects h.phased, fun hclosed cause => ?_⟩
  have hsend (commands : List Command) : (tpm.send commands cause).1 = tpm := by
    rw [send, if_pos hclosed]
  refine ⟨hsend, fun locality => ?_⟩
  obtain hsame | hsent := initLazy_cases tpm locality cause
  · rw [hsame]
  · rw [hsent, hsend]

/-- The event that `startedLate` takes before its start. -/
def earlyEvent : Event := ⟨0, .sha1, Bytes.replicate 20 7, .informational, "early", none⟩

/-- A module that takes an event, is started, and extends PCR 0. -/
def startedLate : Tpm :=
  ((fresh.send [.eventLogAdd earlyEvent] ⟨0, 0, 0⟩).1.send
    [.init 3, .extend 0 .sha1 (Bytes.replicate 20 7)] ⟨0, 1, 0⟩).1

/-- The event comes first, so that the module was not started before it was used. -/
theorem commands_phased_startedLate :
    Reached defaultAlgorithms startedLate ∧
      startedLate.commands =
        [.eventLogAdd earlyEvent, .init 3, .extend 0 .sha1 (Bytes.replicate 20 7)] ∧
      Phased (some 3) startedLate.commands ∧ ¬startedLate.StartedFirst := by
  have hreached : Reached defaultAlgorithms startedLate := .send (.send (.built rfl) _ _) _ _
  have hcommands : startedLate.commands =
      [.eventLogAdd earlyEvent, .init 3, .extend 0 .sha1 (Bytes.replicate 20 7)] := rfl
  have hlocality : startedLate.locality = some 3 := rfl
  obtain ⟨hphased, hfirst, -⟩ := commands_phased hreached
  exact ⟨hreached, hcommands, hlocality ▸ hphased, fun h => hfirst.mp h _ _ hcommands⟩

end MeasuredBoot.Tpm
