import MeasuredBoot.Proofs.Results
import MeasuredBoot.Proofs.Tpm.Replay

/-!
# A batch and its commands one by one

A batch of commands is a transaction. It is taken exactly if its commands are taken when each of them is
sent on its own, in the same order, and it leaves the same module behind. Otherwise it is refused for the
first command that cannot be applied, and nothing is left of the commands before that one.

* `Tpm.RefusesAfter`: a command that cannot be applied, after some that can;
* `Tpm.applyAll_cases`: the commands of a batch can all be applied, or there is a first one that cannot;
* `Tpm.RefusesAfter.send`, `Tpm.RefusesAfter.sendAll`: the batch, and its commands one by one;
* `Tpm.send_sequential`: the transaction.
-/

namespace MeasuredBoot.Tpm

/-- A module applies some commands and then refuses one. -/
structure RefusesAfter (tpm : Tpm) (before : List Command) (command : Command) (mid : Tpm)
    (reason : TpmError) : Prop where
  applied : tpm.applyAll before = .ok mid
  refused : mid.apply command = .error reason

/-- All commands of a batch can be applied, or there is a first one that cannot. -/
theorem applyAll_cases (tpm : Tpm) (commands : List Command) :
    (∃ after, tpm.applyAll commands = .ok after) ∨
    ∃ before command rest mid reason, commands = before ++ command :: rest ∧
      tpm.RefusesAfter before command mid reason := by
  induction commands generalizing tpm with
  | nil => exact .inl ⟨tpm, rfl⟩
  | cons command rest ih =>
    cases hnext : tpm.apply command with
    | error reason => exact .inr ⟨[], command, rest, tpm, reason, rfl, rfl, hnext⟩
    | ok next =>
      have hcons (others : List Command) : tpm.applyAll (command :: others) = next.applyAll others := by
        rw [applyAll_cons, hnext, ok_bind]
      obtain ⟨after, hafter⟩ | ⟨before, refused, others, mid, reason, rfl, hmid, hrefused⟩ := ih next
      · exact .inl ⟨after, (hcons rest).trans hafter⟩
      · have hall := (hcons before).trans hmid
        exact .inr ⟨command :: before, refused, others, mid, reason, rfl, hall, hrefused⟩

theorem sendAll_append (tpm : Tpm) (xs ys : List LoggedCommand) :
    tpm.sendAll (xs ++ ys) = tpm.sendAll xs >>= (sendAll · ys) := List.foldlM_append

/-- Of commands that can be applied, those at the front can. -/
theorem exists_applyAll_take {tpm after : Tpm} {commands : List Command}
    (h : tpm.applyAll commands = .ok after) (n : Nat) :
    ∃ mid, tpm.applyAll (commands.take n) = .ok mid := by
  rw [← List.take_append_drop n commands, applyAll_append] at h
  obtain ⟨mid, hmid, -⟩ := exists_ok_of_bind h
  exact ⟨mid, hmid⟩

namespace RefusesAfter

variable {tpm mid : Tpm} {before : List Command} {command : Command} {reason : TpmError}

theorem applyUntilRefused (h : tpm.RefusesAfter before command mid reason) (index : Nat)
    (rest : List Command) :
    tpm.applyUntilRefused index (before ++ command :: rest) =
      (mid, some (.commandFailed (index + before.length) command.name reason)) := by
  obtain ⟨hmid, hrefused⟩ := h
  induction before generalizing tpm index with
  | nil =>
    cases hmid
    rw [List.nil_append, Tpm.applyUntilRefused, hrefused]
    rfl
  | cons first others ih =>
    obtain ⟨next, hnext, hothers⟩ := exists_ok_of_bind hmid
    rw [List.cons_append, Tpm.applyUntilRefused, hnext]
    dsimp only
    rw [ih (index + 1) hothers, List.length_cons, Nat.add_right_comm, Nat.add_assoc]

/-- The batch is refused for the command, and what was done before is taken back. -/
theorem send (h : tpm.RefusesAfter before command mid reason) (hopen : tpm.finished = false)
    (rest : List Command) (cause : Coordinates) :
    tpm.send (before ++ command :: rest) cause =
      (tpm, .error (.commandFailed before.length command.name reason)) := by
  have hfollows := tpm.follows_applyUntilRefused 0 (before ++ command :: rest)
  rw [h.applyUntilRefused] at hfollows
  rw [Tpm.send, if_neg (by rw [hopen]; decide), h.applyUntilRefused]
  dsimp only
  rw [rollback_eq hfollows, Nat.zero_add]

/-- Sent one by one, the commands are taken up to the one that is refused. -/
theorem sendAll (h : tpm.RefusesAfter before command mid reason) (hopen : tpm.finished = false)
    (rest : List Command) (cause : Coordinates) :
    ∃ sent : Tpm, tpm.sendAll (before.map (⟨·, cause⟩)) = .ok sent ∧
      sent.apply command = .error reason ∧
      sent.send [command] cause = (sent, .error (.commandFailed 0 command.name reason)) ∧
      tpm.sendAll ((before ++ command :: rest).map (⟨·, cause⟩)) =
        .error (.commandFailed 0 command.name reason) := by
  let sent : Tpm := { mid with commandLog := tpm.commandLog ++ before.map (⟨·, cause⟩) }
  have hsent : tpm.sendAll (before.map (⟨·, cause⟩)) = .ok sent :=
    sendAll_commands cause tpm.commandLog hopen h.applied
  have hrefused : sent.apply command = .error reason := by
    rw [apply_withLog, h.refused]
    rfl
  have hopen' : sent.finished = false := (follows_of_applyAll h.applied).finished_eq.trans hopen
  have halone : sent.RefusesAfter [] command sent reason := ⟨rfl, hrefused⟩
  have hsend : sent.send [command] cause = (sent, .error (.commandFailed 0 command.name reason)) :=
    halone.send hopen' [] cause
  refine ⟨sent, hsent, hrefused, hsend, ?_⟩
  rw [List.map_append, sendAll_append, hsent, ok_bind, List.map_cons, Tpm.sendAll, List.foldlM_cons, hsend]
  rfl

/-- One by one, exactly the commands before the one that is refused are taken. -/
theorem isOk_sendAll_take_iff (h : tpm.RefusesAfter before command mid reason)
    (hopen : tpm.finished = false) (rest : List Command) (cause : Coordinates) (n : Nat) :
    (tpm.sendAll (((before ++ command :: rest).take n).map (⟨·, cause⟩))).isOk = true ↔
      n ≤ before.length := by
  rcases Nat.lt_or_ge before.length n with hn | hn
  · obtain ⟨k, rfl⟩ := Nat.exists_eq_add_of_lt hn
    have htake : (before ++ command :: rest).take (before.length + k + 1) =
        before ++ command :: rest.take k := by
      rw [Nat.add_assoc, List.take_length_add_append, List.take_succ_cons]
    obtain ⟨-, -, -, -, hrefused⟩ := h.sendAll hopen (rest.take k) cause
    rw [htake, hrefused]
    exact iff_of_false nofun (Nat.not_le_of_gt hn)
  · obtain ⟨after, hafter⟩ := exists_applyAll_take h.applied n
    rw [List.take_append_of_le_length hn]
    have hsent := sendAll_commands cause tpm.commandLog hopen hafter
    rw [show tpm.sendAll _ = _ from hsent]
    exact iff_of_true rfl hn

end RefusesAfter

/-- A batch is taken exactly if its commands are taken one by one, and to the same effect. Otherwise it is
refused for the command after the longest part at its front that is taken one by one, for the reason that
this command is refused for, and the module stays as it is. A closed module refuses every batch. -/
theorem send_sequential (tpm : Tpm) (commands : List Command) (cause : Coordinates) :
    (tpm.finished = true → tpm.send commands cause = (tpm, .error .finished)) ∧
    (tpm.finished = false →
      (∀ after, tpm.send commands cause = (after, .ok ()) ↔
        tpm.sendAll (commands.map (⟨·, cause⟩)) = .ok after) ∧
      ∀ e, tpm.sendAll (commands.map (⟨·, cause⟩)) = .error e →
        ∃ index command reason, commands[index]? = some command ∧
          tpm.send commands cause = (tpm, .error (.commandFailed index command.name reason)) ∧
          (∀ n, (tpm.sendAll ((commands.take n).map (⟨·, cause⟩))).isOk = true ↔ n ≤ index) ∧
          ∃ sent, tpm.sendAll ((commands.take index).map (⟨·, cause⟩)) = .ok sent ∧
            sent.apply command = .error reason ∧
            sent.send [command] cause = (sent, .error (.commandFailed 0 command.name reason))) := by
  refine ⟨fun hclosed => ?_, fun hopen => ?_⟩
  · rw [send, if_pos hclosed]
  obtain ⟨applied, happlied⟩ | ⟨before, command, rest, mid, reason, rfl, h⟩ :=
    tpm.applyAll_cases commands
  · have hsend := send_of_applyAll cause happlied hopen
    have hsent := sendAll_commands cause tpm.commandLog hopen happlied
    refine ⟨fun after => ?_, fun e he => ?_⟩
    · rw [hsend, show tpm.sendAll _ = _ from hsent, Prod.mk.injEq, Except.ok.injEq, Except.ok.injEq]
      exact and_iff_left rfl
    · cases hsent.symm.trans he
  · obtain ⟨sent, hsent, hrefused, halone, hall⟩ := h.sendAll hopen rest cause
    have hsend := h.send hopen rest cause
    refine ⟨fun after => ?_, fun e _ => ?_⟩
    · rw [hsend, hall]
      constructor <;> intro h <;> cases h
    · refine ⟨before.length, command, reason, ?_, hsend, h.isOk_sendAll_take_iff hopen rest cause, sent,
        ?_, hrefused, halone⟩
      · rw [List.getElem?_append_right (Nat.le_refl _), Nat.sub_self]
        rfl
      · rw [List.take_left]
        exact hsent

/-- A batch that starts a module, adds an event, extends a bank that a fresh module does not have, and adds
the event again. -/
def refusedHalfway : List Command :=
  let event : Event := ⟨0, .sha1, Bytes.replicate 20 7, .informational, "separator", none⟩
  [.init 3, .eventLogAdd event, .extend 0 .sha384 (Bytes.replicate 48 1), .eventLogAdd event]

theorem send_sequential_refusedHalfway :
    (∃ reason,
      fresh.send refusedHalfway ⟨0, 0, 0⟩ = (fresh, .error (.commandFailed 2 "Extend" reason))) ∧
      (fresh.sendAll ((refusedHalfway.take 2).map (⟨·, ⟨0, 0, 0⟩⟩))).isOk = true ∧
      fresh.finish.send refusedHalfway ⟨0, 0, 0⟩ = (fresh.finish, .error .finished) := by
  have htwo : (fresh.sendAll ((refusedHalfway.take 2).map (⟨·, ⟨0, 0, 0⟩⟩))).isOk = true := by
    decide +kernel
  have hthree : (fresh.sendAll ((refusedHalfway.take 3).map (⟨·, ⟨0, 0, 0⟩⟩))).isOk = false := by
    decide +kernel
  obtain ⟨e, he⟩ : ∃ e, fresh.sendAll (refusedHalfway.map (⟨·, ⟨0, 0, 0⟩⟩)) = .error e :=
    exists_error_of_isOk (by decide +kernel)
  obtain ⟨-, hopen⟩ := send_sequential fresh refusedHalfway ⟨0, 0, 0⟩
  obtain ⟨hclosed, -⟩ := send_sequential fresh.finish refusedHalfway ⟨0, 0, 0⟩
  obtain ⟨index, command, reason, hcommand, hsend, hlongest, -⟩ := (hopen rfl).2 e he
  have hle := (hlongest 2).mp htwo
  have hlt : ¬3 ≤ index := fun h => absurd ((hlongest 3).mpr h) (by rw [hthree]; decide)
  obtain rfl : index = 2 := by omega
  cases hcommand
  exact ⟨⟨reason, hsend⟩, htwo, hclosed rfl⟩

end MeasuredBoot.Tpm
