import MeasuredBoot.Proofs.Tpm.Banks

/-!
# Batches of commands

What one command does (`Tpm.apply_cases`), and that a batch is a transaction: `Tpm.send` either has
the effect of all commands in order (`Tpm.applyAll`) and logs them, or leaves the module as it is.

* `Tpm.applyUntilRefused_eq_none_iff`: a batch is applied if all its commands can be;
* `Tpm.rollback_eq`: what was done before a refusal is taken back;
* `Tpm.send_cases`, `Tpm.initLazy_cases`: the two outcomes of a batch, and of a start;
* `Tpm.initLazy_started`: what a start does to the module, if it does anything;
* `Tpm.locality_of_applyAll`: only a start changes the locality.
-/

namespace MeasuredBoot.Tpm

/-- The effect of commands in their order, apart from the command log. -/
def applyAll (tpm : Tpm) (commands : List Command) : Except TpmError Tpm := commands.foldlM apply tpm

@[simp] theorem applyAll_nil (tpm : Tpm) : tpm.applyAll [] = .ok tpm := rfl

theorem applyAll_cons (tpm : Tpm) (command : Command) (rest : List Command) :
    tpm.applyAll (command :: rest) = tpm.apply command >>= (applyAll · rest) := rfl

theorem applyAll_append (tpm : Tpm) (xs ys : List Command) :
    tpm.applyAll (xs ++ ys) = tpm.applyAll xs >>= (applyAll · ys) := List.foldlM_append

@[simp] theorem applyAll_singleton (tpm : Tpm) (command : Command) :
    tpm.applyAll [command] = tpm.apply command := by
  rw [applyAll_cons]
  cases tpm.apply command <;> rfl

/-! ## One command -/

/-- A module is started once. -/
theorem start_eq_ok_iff {tpm after : Tpm} {locality : UInt8} :
    tpm.start locality = .ok after ↔
      tpm.locality = none ∧ ∃ pcrs, startingValues tpm.algorithms locality = .ok pcrs ∧
        after = { tpm with pcrs, locality := some locality } := by
  rw [start]
  cases tpm.locality with
  | some current => exact ⟨nofun, fun h => nomatch h.1⟩
  | none =>
    constructor
    · intro h
      obtain ⟨pcrs, hpcrs, h⟩ := exists_ok_of_bind h
      cases h
      exact ⟨rfl, pcrs, hpcrs, rfl⟩
    · rintro ⟨-, pcrs, hpcrs, rfl⟩
      dsimp only
      rw [hpcrs]
      rfl

/-- Extending a PCR replaces its value by the extended one. -/
theorem extend_eq_ok_iff {tpm after : Tpm} {pcr : UInt8} {alg : Algorithm} {digest : ByteArray} :
    tpm.extend pcr alg digest = .ok after ↔
      ∃ old value pcrs, alg.digestSize? = some digest.size ∧ tpm.pcrs.get pcr alg = .ok old ∧
        alg.extend old digest = .ok value ∧ tpm.pcrs.set pcr alg value = .ok pcrs ∧
        after = { tpm with pcrs } := by
  constructor
  · intro h
    rw [extend] at h
    obtain ⟨size, hsize, h⟩ := exists_ok_of_bind h
    have hsize : alg.digestSize? = some size := by
      rw [Algorithm.digestSize] at hsize
      split at hsize
      · rename_i n hn
        cases hsize
        exact hn
      · cases hsize
    by_cases hd : digest.size = size
    · rw [if_neg (not_not_intro hd)] at h
      obtain ⟨old, hold, h⟩ := exists_ok_of_bind h
      obtain ⟨value, hvalue, h⟩ := exists_ok_of_bind h
      obtain ⟨pcrs, hpcrs, h⟩ := exists_ok_of_bind h
      cases h
      exact ⟨old, value, pcrs, hd ▸ hsize, hold, hvalue, hpcrs, rfl⟩
    · rw [if_pos hd] at h
      cases h
  · rintro ⟨old, value, pcrs, hsize, hold, hvalue, hpcrs, rfl⟩
    have hexpected : alg.digestSize = .ok digest.size := by rw [Algorithm.digestSize, hsize]
    simp only [extend, hexpected, bind, Except.bind, hold, hvalue, hpcrs]
    exact if_neg (not_not_intro rfl)

/-- All that a command can do: start the module, replace one PCR value, or add an event. -/
theorem apply_cases {tpm after : Tpm} {command : Command} (h : tpm.apply command = .ok after) :
    (∃ locality pcrs, command = .init locality ∧ tpm.locality = none ∧
      startingValues tpm.algorithms locality = .ok pcrs ∧
      after = { tpm with pcrs, locality := some locality }) ∨
    (∃ pcr alg digest old value pcrs, command = .extend pcr alg digest ∧
      alg.digestSize? = some digest.size ∧ tpm.pcrs.get pcr alg = .ok old ∧
      alg.extend old digest = .ok value ∧ tpm.pcrs.set pcr alg value = .ok pcrs ∧
      after = { tpm with pcrs }) ∨
    ∃ event, command = .eventLogAdd event ∧
      after = { tpm with eventLog := tpm.eventLog ++ [event] } := by
  cases command with
  | init locality =>
    obtain ⟨hnone, pcrs, hpcrs, hafter⟩ := start_eq_ok_iff.mp h
    exact .inl ⟨locality, pcrs, rfl, hnone, hpcrs, hafter⟩
  | extend pcr alg digest =>
    obtain ⟨old, value, pcrs, hextend⟩ := extend_eq_ok_iff.mp h
    exact .inr (.inl ⟨pcr, alg, digest, old, value, pcrs, rfl, hextend⟩)
  | eventLogAdd event =>
    cases h
    exact .inr (.inr ⟨event, rfl, rfl⟩)

/-- What commands leave alone: the banks, the command log and whether the module is closed; of the
event log they keep all entries. -/
structure Follows (before after : Tpm) : Prop where
  algorithms_eq : after.algorithms = before.algorithms
  commandLog_eq : after.commandLog = before.commandLog
  finished_eq : after.finished = before.finished
  eventLog_prefix : before.eventLog <+: after.eventLog

namespace Follows

theorem refl (tpm : Tpm) : Follows tpm tpm := ⟨rfl, rfl, rfl, List.prefix_rfl⟩

theorem trans {a b c : Tpm} (h : Follows a b) (h' : Follows b c) : Follows a c :=
  ⟨h'.algorithms_eq.trans h.algorithms_eq, h'.commandLog_eq.trans h.commandLog_eq,
    h'.finished_eq.trans h.finished_eq, h.eventLog_prefix.trans h'.eventLog_prefix⟩

end Follows

theorem follows_of_apply {tpm after : Tpm} {command : Command} (h : tpm.apply command = .ok after) :
    Follows tpm after := by
  obtain ⟨_, _, -, -, -, rfl⟩ | ⟨_, _, _, _, _, _, -, -, -, -, -, rfl⟩ | ⟨event, -, rfl⟩ :=
    apply_cases h
  · exact ⟨rfl, rfl, rfl, List.prefix_rfl⟩
  · exact ⟨rfl, rfl, rfl, List.prefix_rfl⟩
  · exact ⟨rfl, rfl, rfl, List.prefix_append _ _⟩

theorem follows_of_applyAll {tpm after : Tpm} {commands : List Command}
    (h : tpm.applyAll commands = .ok after) : Follows tpm after := by
  induction commands generalizing tpm with
  | nil =>
    cases h
    exact Follows.refl _
  | cons command rest ih =>
    obtain ⟨next, hnext, h⟩ := exists_ok_of_bind h
    exact (follows_of_apply hnext).trans (ih h)

/-! ## A batch -/

/-- A batch is applied without a refusal exactly if all its commands can be applied in order. -/
theorem applyUntilRefused_eq_none_iff {tpm after : Tpm} {commands : List Command} {index : Nat} :
    tpm.applyUntilRefused index commands = (after, none) ↔ tpm.applyAll commands = .ok after := by
  induction commands generalizing tpm index with
  | nil =>
    rw [applyUntilRefused, applyAll_nil]
    exact ⟨fun h => congrArg Except.ok (congrArg Prod.fst h), fun h => by cases h; rfl⟩
  | cons command rest ih =>
    rw [applyUntilRefused, applyAll_cons]
    cases tpm.apply command with
    | ok next => exact ih
    | error e => exact ⟨nofun, nofun⟩

theorem follows_applyUntilRefused (tpm : Tpm) (index : Nat) (commands : List Command) :
    Follows tpm (tpm.applyUntilRefused index commands).1 := by
  induction commands generalizing tpm index with
  | nil => exact Follows.refl tpm
  | cons command rest ih =>
    rw [applyUntilRefused]
    cases hnext : tpm.apply command with
    | ok next => exact (follows_of_apply hnext).trans (ih next (index + 1))
    | error e => exact Follows.refl tpm

/-- Whatever was applied is taken back. -/
theorem rollback_eq {before after : Tpm} (h : Follows before after) :
    after.rollback before = before := by
  obtain ⟨halgs, hlog, hfin, hevents⟩ := h
  have htake : after.eventLog.take before.eventLog.length = before.eventLog :=
    (List.prefix_iff_eq_take.mp hevents).symm
  rw [rollback, htake, halgs, hlog, hfin]

/-- A batch is refused and leaves no trace, or all its commands are applied and logged. -/
theorem send_cases (tpm : Tpm) (commands : List Command) (cause : Coordinates) :
    (∃ e, tpm.send commands cause = (tpm, .error e)) ∨
    ∃ after, tpm.finished = false ∧ tpm.applyAll commands = .ok after ∧
      tpm.send commands cause =
        ({ after with commandLog := tpm.commandLog ++ commands.map (⟨·, cause⟩) }, .ok ()) := by
  rw [send]
  split
  · exact .inl ⟨_, rfl⟩
  rename_i hfin
  cases hout : tpm.applyUntilRefused 0 commands with
  | mk after refusal =>
    have hfollows := follows_applyUntilRefused tpm 0 commands
    rw [hout] at hfollows
    cases refusal with
    | some refusal =>
      dsimp only
      rw [rollback_eq hfollows]
      exact .inl ⟨refusal, rfl⟩
    | none =>
      dsimp only
      rw [hfollows.commandLog_eq]
      exact .inr ⟨after, Bool.eq_false_iff.mpr hfin, applyUntilRefused_eq_none_iff.mp hout, rfl⟩

/-- A module that is open takes every batch whose commands can be applied. -/
theorem send_of_applyAll {tpm after : Tpm} {commands : List Command} (cause : Coordinates)
    (h : tpm.applyAll commands = .ok after) (hopen : tpm.finished = false) :
    tpm.send commands cause =
      ({ after with commandLog := tpm.commandLog ++ commands.map (⟨·, cause⟩) }, .ok ()) := by
  rw [send, if_neg (by rw [hopen]; decide), applyUntilRefused_eq_none_iff.mpr h]
  dsimp only
  rw [(follows_of_applyAll h).commandLog_eq]

/-- A start changes nothing, or is the batch of one command. -/
theorem initLazy_cases (tpm : Tpm) (locality : UInt8) (cause : Coordinates) :
    (tpm.initLazy locality cause).1 = tpm ∨
      tpm.initLazy locality cause = tpm.send [.init locality] cause := by
  rw [initLazy]
  split
  · split <;> exact .inl rfl
  · exact .inr rfl

/-- A start changes nothing, or the module is started and logs that it was. -/
theorem initLazy_started (tpm : Tpm) (locality : UInt8) (cause : Coordinates) :
    (tpm.initLazy locality cause).1 = tpm ∨
      ∃ started, tpm.start locality = .ok started ∧
        tpm.initLazy locality cause =
          ({ started with commandLog := tpm.commandLog ++ [⟨.init locality, cause⟩] }, .ok ()) := by
  obtain hsame | hsend := tpm.initLazy_cases locality cause
  · exact .inl hsame
  · rw [hsend]
    obtain ⟨_, hrefused⟩ | ⟨started, -, happly, htaken⟩ := tpm.send_cases [.init locality] cause
    · rw [hrefused]
      exact .inl rfl
    · rw [applyAll_singleton] at happly
      exact .inr ⟨started, happly, htaken⟩

@[simp] theorem algorithms_send (tpm : Tpm) (commands : List Command) (cause : Coordinates) :
    (tpm.send commands cause).1.algorithms = tpm.algorithms := by
  obtain ⟨_, hrefused⟩ | ⟨after, -, happly, htaken⟩ := tpm.send_cases commands cause
  · rw [hrefused]
  · rw [htaken]
    exact (follows_of_applyAll happly).algorithms_eq

@[simp] theorem algorithms_initLazy (tpm : Tpm) (locality : UInt8) (cause : Coordinates) :
    (tpm.initLazy locality cause).1.algorithms = tpm.algorithms := by
  obtain hsame | hsend := tpm.initLazy_cases locality cause
  · rw [hsame]
  · rw [hsend, algorithms_send]

theorem eventLog_initLazy (tpm : Tpm) (locality : UInt8) (cause : Coordinates) :
    (tpm.initLazy locality cause).1.eventLog = tpm.eventLog := by
  obtain hsame | ⟨started, hstart, htaken⟩ := tpm.initLazy_started locality cause
  · rw [hsame]
  · obtain ⟨-, _, -, rfl⟩ := start_eq_ok_iff.mp hstart
    rw [htaken]

theorem locality_initLazy {tpm : Tpm} {locality : UInt8} {cause : Coordinates}
    (h : (tpm.initLazy locality cause).2 = .ok ()) :
    (tpm.initLazy locality cause).1.locality = some locality := by
  rw [initLazy] at h ⊢
  cases hlocality : tpm.locality with
  | some current =>
    rw [hlocality] at h
    dsimp only at h ⊢
    split at h
    · rename_i hsame
      rw [if_pos hsame, hlocality, hsame]
    · cases h
  | none =>
    rw [hlocality] at h
    dsimp only at h ⊢
    obtain ⟨e, hrefused⟩ | ⟨started, -, happly, htaken⟩ := tpm.send_cases [.init locality] cause
    · rw [hrefused] at h
      cases h
    · rw [applyAll_singleton] at happly
      obtain ⟨-, pcrs, -, rfl⟩ := start_eq_ok_iff.mp happly
      rw [htaken]

/-- Only a start changes the locality. -/
theorem locality_of_applyAll {tpm after : Tpm} {commands : List Command}
    (h : tpm.applyAll commands = .ok after) (hinit : ∀ locality, .init locality ∉ commands) :
    after.locality = tpm.locality := by
  induction commands generalizing tpm with
  | nil =>
    cases h
    rfl
  | cons command rest ih =>
    obtain ⟨next, hnext, hrest⟩ := exists_ok_of_bind h
    rw [ih hrest fun locality hmem => hinit locality (List.mem_cons_of_mem command hmem)]
    obtain ⟨locality, _, rfl, -⟩ | ⟨_, _, _, _, _, _, -, -, -, -, -, rfl⟩ | ⟨event, -, rfl⟩ :=
      apply_cases hnext
    · exact absurd List.mem_cons_self (hinit locality)
    · rfl
    · rfl

end MeasuredBoot.Tpm
