import MeasuredBoot.Proofs.Tpm.Bookkeeping
import MeasuredBoot.Proofs.Tpm.Replay

/-!
# What the committed commands say

The command log determines a module: the PCR values of each bank are the extensions of exactly that PCR
and bank, made in the order of the log from the values of a start at the logged locality; the event log is
what was added to it; and there is one start or none. Commands of a refused batch, starts that find the
module started, and the end of the module leave no trace in any of it.

* `Tpm.Kept`: what one command more keeps, every module has with the commands that it took;
* `Tpm.Reflects`: what a module holds is what some commands make of it;
* `Tpm.Reflects.apply`: one command more;
* `Tpm.state_of_commandLog`: modules reflect their command log.
-/

namespace MeasuredBoot

namespace Command

/-- The locality that a command starts the module at. -/
def locality? : Command → Option UInt8
  | .init locality => some locality
  | _ => none

/-- The event that a command adds. -/
def event? : Command → Option Event
  | .eventLogAdd event => some event
  | _ => none

/-- The digest that a command extends a PCR by in the bank of an algorithm. -/
def digestFor? (pcr : UInt8) (alg : Algorithm) : Command → Option ByteArray
  | .extend other alg' digest => if other = pcr ∧ alg' = alg then some digest else none
  | _ => none

theorem filterMap_digestFor?_extend (pcr other : UInt8) (alg alg' : Algorithm) (digest : ByteArray) :
    [extend pcr alg digest].filterMap (digestFor? other alg') =
      if pcr = other ∧ alg = alg' then [digest] else [] := by
  rw [List.filterMap_cons, digestFor?]
  by_cases hsame : pcr = other ∧ alg = alg'
  · rw [if_pos hsame, if_pos hsame]
    rfl
  · rw [if_neg hsame, if_neg hsame]
    rfl

end Command

namespace Tpm

/-- The commands that the module took, in order. -/
def commands (tpm : Tpm) : List Command := tpm.commandLog.map (·.command)

/-! ## Properties kept by commands -/

/-- A property of a module and some commands that is kept by one command more. Neither the command log nor the
end of the module matters to it. -/
structure Kept (motive : Tpm → List Command → Prop) : Prop where
  relog : ∀ {tpm commands}, motive tpm commands → ∀ log finished,
    motive { tpm with commandLog := log, finished } commands
  apply : ∀ {tpm commands command after}, motive tpm commands → tpm.apply command = .ok after →
    motive after (commands ++ [command])

namespace Kept

variable {motive : Tpm → List Command → Prop} {tpm after : Tpm} {commands batch : List Command}

theorem applyAll (hkept : Kept motive) (h : motive tpm commands) (happly : tpm.applyAll batch = .ok after) :
    motive after (commands ++ batch) := by
  induction batch generalizing tpm commands with
  | nil =>
    cases happly
    rwa [List.append_nil]
  | cons command rest ih =>
    obtain ⟨next, hnext, hrest⟩ := exists_ok_of_bind happly
    rw [List.append_cons]
    exact ih (hkept.apply h hnext) hrest

/-- A batch is taken and logged, or the module stays as it is. -/
theorem send (hkept : Kept motive) (h : motive tpm tpm.commands) (batch : List Command)
    (cause : Coordinates) : motive (tpm.send batch cause).1 (tpm.send batch cause).1.commands := by
  obtain ⟨_, hrefused⟩ | ⟨after, -, happly, htaken⟩ := send_cases tpm batch cause
  · rw [hrefused]
    exact h
  · have hlog : Tpm.commands { after with commandLog := tpm.commandLog ++ batch.map (⟨·, cause⟩) } =
        tpm.commands ++ batch := by
      rw [Tpm.commands, List.map_append, List.map_map]
      exact congrArg (tpm.commands ++ ·) (List.map_id batch)
    rw [htaken, hlog]
    exact hkept.relog (hkept.applyAll h happly) _ _

theorem initLazy (hkept : Kept motive) (h : motive tpm tpm.commands) (locality : UInt8)
    (cause : Coordinates) :
    motive (tpm.initLazy locality cause).1 (tpm.initLazy locality cause).1.commands := by
  obtain hsame | hsend := initLazy_cases tpm locality cause
  · rw [hsame]
    exact h
  · rw [hsend]
    exact hkept.send h ..

/-- A property that a new module has without commands, every module has with the commands that it took. -/
theorem of_reached (hkept : Kept motive) {algs : List Algorithm}
    (hbuilt : ∀ tpm, withAlgorithms algs = .ok tpm → motive tpm []) (h : Reached algs tpm) :
    motive tpm tpm.commands := by
  induction h with
  | @built tpm h =>
    have hlog : tpm.commands = [] := by
      obtain ⟨-, rfl⟩ := of_withAlgorithms h
      rfl
    rw [hlog]
    exact hbuilt tpm h
  | send _ batch cause ih => exact hkept.send ih batch cause
  | initLazy _ locality cause ih => exact hkept.initLazy ih locality cause
  | finish _ ih => exact hkept.relog ih _ true

end Kept

/-! ## What commands make of a module -/

/-- What a module holds is what some commands make of it. Before its start it has no values, and no PCR was
extended. -/
structure Reflects (tpm : Tpm) (commands : List Command) : Prop where
  banks : ∀ alg ∈ tpm.algorithms, alg.isHash = true
  events : tpm.eventLog = commands.filterMap Command.event?
  starts : commands.filterMap Command.locality? = tpm.locality.toList
  unstarted : tpm.locality = none →
    tpm.pcrs = [] ∧ ∀ pcr alg, commands.filterMap (Command.digestFor? pcr alg) = []
  values : ∀ locality, tpm.locality = some locality →
    ∀ pcr alg, pcr.toNat < pcrCount → alg ∈ tpm.algorithms →
      tpm.pcrs.ExtendedBy locality pcr alg (commands.filterMap (Command.digestFor? pcr alg))

namespace Reflects

variable {tpm after : Tpm} {commands : List Command}

theorem of_built {algs : List Algorithm} (h : withAlgorithms algs = .ok tpm) : tpm.Reflects [] := by
  have hbanks (alg : Algorithm) (hmem : alg ∈ tpm.algorithms) : alg.isHash = true :=
    (of_withAlgorithms h).1 alg ((mem_algorithms_iff h alg).mp hmem)
  obtain ⟨-, rfl⟩ := of_withAlgorithms h
  exact ⟨hbanks, rfl, rfl, fun _ => ⟨rfl, fun _ _ => rfl⟩, nofun⟩

/-- The command log and the end of a module are not among what the commands make of it. -/
theorem relog (h : tpm.Reflects commands) (log : List LoggedCommand) (finished : Bool) :
    Reflects { tpm with commandLog := log, finished } commands :=
  ⟨h.banks, h.events, h.starts, h.unstarted, h.values⟩

/-- A start is the first one, and no PCR was extended before it. -/
theorem start {locality : UInt8} {pcrs : PcrValues} (h : tpm.Reflects commands)
    (hnone : tpm.locality = none) (hpcrs : startingValues tpm.algorithms locality = .ok pcrs) :
    Reflects { tpm with pcrs, locality := some locality } (commands ++ [.init locality]) where
  banks := h.banks
  events := by
    rw [List.filterMap_append, ← h.events]
    exact (List.append_nil _).symm
  starts := by
    rw [List.filterMap_append, h.starts, hnone]
    rfl
  unstarted := nofun
  values l hl pcr alg hpcr halg := by
    cases hl
    rw [List.filterMap_append, (h.unstarted hnone).2]
    exact PcrValues.extendedBy_startingValues hpcrs hpcr halg (h.banks alg halg)

/-- An extension adds a digest to one PCR in one bank, and leaves all other values alone. -/
theorem extend {pcr : UInt8} {alg : Algorithm} {digest old value : ByteArray} {pcrs : PcrValues}
    (h : tpm.Reflects commands) (hold : tpm.pcrs.get pcr alg = .ok old)
    (hvalue : alg.extend old digest = .ok value) (hpcrs : tpm.pcrs.set pcr alg value = .ok pcrs) :
    Reflects { tpm with pcrs } (commands ++ [.extend pcr alg digest]) where
  banks := h.banks
  events := by
    rw [List.filterMap_append, ← h.events]
    exact (List.append_nil _).symm
  starts := by
    rw [List.filterMap_append, h.starts]
    exact List.append_nil _
  unstarted hnone := by
    rw [(h.unstarted hnone).1] at hold
    cases hold
  values l hl other alg' hother halg' := by
    have hmore := (h.values l hl other alg' hother halg').extend hold hvalue hpcrs
    rw [List.filterMap_append, Command.filterMap_digestFor?_extend]
    exact hmore

theorem eventLogAdd (h : tpm.Reflects commands) (event : Event) :
    Reflects { tpm with eventLog := tpm.eventLog ++ [event] } (commands ++ [.eventLogAdd event]) where
  banks := h.banks
  events := by
    rw [List.filterMap_append, ← h.events]
    rfl
  starts := by
    rw [List.filterMap_append, h.starts]
    exact List.append_nil _
  unstarted hnone := by
    refine ⟨(h.unstarted hnone).1, fun pcr alg => ?_⟩
    rw [List.filterMap_append, (h.unstarted hnone).2]
    rfl
  values l hl pcr alg hpcr halg := by
    rw [List.filterMap_append]
    show tpm.pcrs.ExtendedBy l pcr alg (commands.filterMap (Command.digestFor? pcr alg) ++ [])
    rw [List.append_nil]
    exact h.values l hl pcr alg hpcr halg

/-- One command more. -/
theorem apply {command : Command} (h : tpm.Reflects commands) (happly : tpm.apply command = .ok after) :
    after.Reflects (commands ++ [command]) := by
  obtain ⟨locality, pcrs, rfl, hnone, hpcrs, rfl⟩ |
    ⟨pcr, alg, digest, old, value, pcrs, rfl, -, hold, hvalue, hpcrs, rfl⟩ | ⟨event, rfl, rfl⟩ :=
      apply_cases happly
  · exact h.start hnone hpcrs
  · exact h.extend hold hvalue hpcrs
  · exact h.eventLogAdd event

theorem kept : Kept Reflects := ⟨relog, apply⟩

end Reflects

namespace Reached

variable {algs : List Algorithm} {tpm : Tpm}

theorem reflects (h : Reached algs tpm) : tpm.Reflects tpm.commands :=
  Reflects.kept.of_reached (fun _ => .of_built) h

/-- No step changes the banks. -/
theorem mem_algorithms_iff (h : Reached algs tpm) (alg : Algorithm) :
    alg ∈ tpm.algorithms ↔ alg ∈ algs := by
  induction h with
  | built h => exact Tpm.mem_algorithms_iff h alg
  | send _ commands cause ih => rwa [algorithms_send]
  | initLazy _ locality cause ih => rwa [algorithms_initLazy]
  | finish _ ih => exact ih

end Reached

/-- A module that came from a fresh one in any way is what its command log says. If it was started at a
locality, the value of each PCR in each bank is the initial value at that locality, extended by the digests
that were committed for exactly this PCR and bank, in their order. The event log is the events that were
committed. The locality is that of the only start that was committed, if there is one. -/
theorem state_of_commandLog {algs : List Algorithm} {tpm : Tpm} (h : Reached algs tpm) :
    (∀ locality, tpm.locality = some locality → ∀ pcr alg, pcr.toNat < 24 → alg ∈ algs →
      ∃ initial value, alg.initialValue pcr locality = .ok initial ∧
        alg.extendAll initial (tpm.commands.filterMap (Command.digestFor? pcr alg)) = .ok value ∧
        tpm.pcrValue pcr alg = .ok value) ∧
    tpm.eventLog = tpm.commands.filterMap Command.event? ∧
    tpm.commands.filterMap Command.locality? = tpm.locality.toList := by
  have hreflects := h.reflects
  refine ⟨fun locality hlocality pcr alg hpcr halg => ?_, hreflects.events, hreflects.starts⟩
  exact hreflects.values locality hlocality pcr alg hpcr ((h.mem_algorithms_iff alg).mpr halg)

/-- A module that was started, took extensions of two banks and an event, refused a batch that extends PCR 0
again and then starts it once more, was started again at the same locality, and was closed. -/
def extendedBeforeRefusal : Tpm :=
  let event : Event := ⟨0, .sha1, Bytes.replicate 20 7, .extend, "separator", none⟩
  let started := (Tpm.initLazy { algorithms := [.sha1, .sha384] } 3 ⟨0, 0, 0⟩).1
  let extended := (started.send
    [.extend 0 .sha1 (Bytes.replicate 20 7), .eventLogAdd event, .extend 0 .sha384 (Bytes.replicate 48 1),
      .extend 0 .sha1 (Bytes.replicate 20 9)] ⟨0, 1, 0⟩).1
  let refused := (extended.send [.extend 0 .sha1 (Bytes.replicate 20 8), .init 0] ⟨0, 2, 0⟩).1
  (refused.initLazy 3 ⟨0, 3, 0⟩).1.finish

theorem state_of_commandLog_extendedBeforeRefusal :
    Reached [.sha384, .sha1] extendedBeforeRefusal ∧ extendedBeforeRefusal.locality = some 3 ∧
      extendedBeforeRefusal.eventLog.length = 1 ∧
      ∃ initial value, Algorithm.sha1.initialValue 0 3 = .ok initial ∧
        Algorithm.sha1.extendAll initial [Bytes.replicate 20 7, Bytes.replicate 20 9] = .ok value ∧
        extendedBeforeRefusal.pcrValue 0 .sha1 = .ok value := by
  have hreached : Reached [.sha384, .sha1] extendedBeforeRefusal :=
    .finish (.initLazy (.send (.send (.initLazy (.built rfl) _ _) _ _) _ _) _ _)
  have hlocality : extendedBeforeRefusal.locality = some 3 := by decide +kernel
  have hdigests : extendedBeforeRefusal.commands.filterMap (Command.digestFor? 0 .sha1) =
      [Bytes.replicate 20 7, Bytes.replicate 20 9] := by decide +kernel
  obtain ⟨hvalues, hevents, -⟩ := state_of_commandLog hreached
  refine ⟨hreached, hlocality, ?_, ?_⟩
  · rw [hevents]
    decide +kernel
  · rw [← hdigests]
    exact hvalues 3 hlocality 0 .sha1 (by decide) (by decide)

end Tpm

end MeasuredBoot
