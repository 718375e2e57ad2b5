import MeasuredBoot.Proofs.Tpm.Transaction

/-!
# Replay of the command log

The command log of a module is a full record of it. Whatever happened to the module (batches that
were taken or refused, starts, its end), a fresh module that is sent the logged commands one by one
ends with the same PCR values, locality, event log and command log.

* `Tpm.Reached`: the modules that come from a fresh one;
* `Tpm.sendAll_commands`: commands sent one by one have the effect of the batch;
* `Tpm.replay_commandLog`: the replay.
-/

namespace MeasuredBoot.Tpm

/-- The modules that come from one with the given banks by batches of commands, starts and
closing. -/
inductive Reached (algs : List Algorithm) : Tpm → Prop where
  | built {tpm : Tpm} (h : withAlgorithms algs = .ok tpm) : Reached algs tpm
  | send {tpm : Tpm} (h : Reached algs tpm) (commands : List Command) (cause : Coordinates) :
    Reached algs (tpm.send commands cause).1
  | initLazy {tpm : Tpm} (h : Reached algs tpm) (locality : UInt8) (cause : Coordinates) :
    Reached algs (tpm.initLazy locality cause).1
  | finish {tpm : Tpm} (h : Reached algs tpm) : Reached algs tpm.finish

/-! ## Commands one by one -/

/-- No command reads or writes the command log. -/
theorem apply_withLog (tpm : Tpm) (command : Command) (log : List LoggedCommand) :
    { tpm with commandLog := log }.apply command =
      (tpm.apply command).map fun after => { after with commandLog := log } := by
  cases command with
  | init locality =>
    simp only [apply, start]
    cases tpm.locality with
    | some current => rfl
    | none => cases startingValues tpm.algorithms locality <;> rfl
  | extend pcr alg digest =>
    simp only [apply, extend, bind, Except.bind]
    repeat' split
    all_goals rfl
  | eventLogAdd event => rfl

theorem replay_append (algs : List Algorithm) (xs ys : List LoggedCommand) :
    replay algs (xs ++ ys) = replay algs xs >>= (sendAll · ys) := by
  rw [replay, replay]
  cases withAlgorithms algs with
  | error e => rfl
  | ok tpm => exact List.foldlM_append

/-- Commands that can be applied in order can be sent one by one, to the same effect. -/
theorem sendAll_commands {tpm after : Tpm} {commands : List Command} (cause : Coordinates)
    (log : List LoggedCommand) (hopen : tpm.finished = false)
    (h : tpm.applyAll commands = .ok after) :
    { tpm with commandLog := log }.sendAll (commands.map (⟨·, cause⟩)) =
      .ok { after with commandLog := log ++ commands.map (⟨·, cause⟩) } := by
  induction commands generalizing tpm log with
  | nil =>
    cases h
    rw [List.map_nil, List.append_nil]
    rfl
  | cons command rest ih =>
    obtain ⟨next, hnext, hrest⟩ := exists_ok_of_bind h
    have happly : { tpm with commandLog := log }.applyAll [command] = .ok { next with commandLog := log } := by
      rw [applyAll_singleton, apply_withLog, hnext]
      rfl
    have hsend := send_of_applyAll cause happly hopen
    have hopen' : next.finished = false := (follows_of_apply hnext).finished_eq.trans hopen
    rw [List.map_cons, List.append_cons]
    simp only [sendAll, List.foldlM_cons, hsend]
    exact ih (log ++ [⟨command, cause⟩]) hopen' hrest

/-! ## The invariant -/

/-- The replay of the command log gives the module back, except that it is open. -/
def Replays (tpm : Tpm) : Prop :=
  replay tpm.algorithms tpm.commandLog = .ok { tpm with finished := false }

namespace Replays

theorem of_built {algs : List Algorithm} {tpm : Tpm} (h : withAlgorithms algs = .ok tpm) :
    tpm.Replays := by
  have hagain := withAlgorithms_algorithms h
  obtain ⟨-, rfl⟩ := of_withAlgorithms h
  rw [Replays, replay, hagain]
  rfl

/-- What a batch adds to the command log is what it does to the module. -/
theorem send {tpm : Tpm} (h : tpm.Replays) (commands : List Command) (cause : Coordinates) :
    (tpm.send commands cause).1.Replays := by
  obtain ⟨e, hrefused⟩ | ⟨after, hopen, happly, htaken⟩ := send_cases tpm commands cause
  · rw [hrefused]
    exact h
  · have hfollows := follows_of_applyAll happly
    have hsend := sendAll_commands cause tpm.commandLog hopen happly
    have hreplayed : replay after.algorithms tpm.commandLog = .ok tpm := by
      rw [hfollows.algorithms_eq, h, ← hopen]
    have hopen' : after.finished = false := hfollows.finished_eq.trans hopen
    rw [htaken, Replays, ← hopen']
    show replay after.algorithms (tpm.commandLog ++ commands.map (⟨·, cause⟩)) = _
    rw [replay_append, hreplayed]
    exact hsend

theorem initLazy {tpm : Tpm} (h : tpm.Replays) (locality : UInt8) (cause : Coordinates) :
    (tpm.initLazy locality cause).1.Replays := by
  obtain hsame | hsend := initLazy_cases tpm locality cause
  · rw [hsame]
    exact h
  · rw [hsend]
    exact h.send ..

theorem finish {tpm : Tpm} (h : tpm.Replays) : tpm.finish.Replays := h

end Replays

/-- The replay of the command log of a module that was reached in any way succeeds, and gives a
module with the same PCR values, locality, event log and command log. -/
theorem replay_commandLog {algs : List Algorithm} {tpm : Tpm} (h : Reached algs tpm) :
    replay tpm.algorithms tpm.commandLog = .ok { tpm with finished := false } := by
  show tpm.Replays
  induction h with
  | built h => exact Replays.of_built h
  | send _ commands cause ih => exact ih.send commands cause
  | initLazy _ locality cause ih => exact ih.initLazy locality cause
  | finish _ ih => exact ih.finish

/-- A module that was started, took an event, refused a batch with another start, and was closed. -/
def closedAfterRefusal : Tpm :=
  let event : Event := ⟨0, .sha1, Bytes.replicate 20 7, .informational, "separator", none⟩
  let started := (Tpm.initLazy { algorithms := [.sha1, .sha384] } 3 ⟨0, 0, 0⟩).1
  let logged := (started.send [.eventLogAdd event] ⟨0, 1, 0⟩).1
  (logged.send [.eventLogAdd event, .init 0] ⟨0, 2, 0⟩).1.finish

theorem replay_commandLog_closedAfterRefusal :
    Reached [.sha384, .sha1, .sha1] closedAfterRefusal ∧
      closedAfterRefusal.commandLog.map (·.command.name) = ["Init", "EventLogAdd"] ∧
      replay closedAfterRefusal.algorithms closedAfterRefusal.commandLog =
        .ok { closedAfterRefusal with finished := false } :=
  have hreached : Reached [.sha384, .sha1, .sha1] closedAfterRefusal :=
    .finish (.send (.send (.initLazy (.built rfl) _ _) _ _) _ _)
  ⟨hreached, by decide, replay_commandLog hreached⟩

end MeasuredBoot.Tpm
