import MeasuredBoot.Flow.Catalogue
import MeasuredBoot.Proofs.Run.Log
import MeasuredBoot.Proofs.Run.Walk

/-!
# Flows that measure

A flow that starts the module and then does nothing but measure comes down to the actions of its steps, one
after the other (`Step.allActions`). The event log has the events of each of them, and the PCR values are
made of what the actions measure (`Action.payloads`).

* `Progress.stands_perform`, `Run.At.stands_finish`: the actions of a step, and the steps of a flow;
* `Action.Logs.digests`: the digests of the extensions that an action logs;
* `Run.At.pcrValue_finish`: the PCR values at the end.
-/

namespace MeasuredBoot

/-- The actions of some steps, one after the other. -/
def Step.allActions (as : Artifacts) (steps : List Step) : Except BootError (List Action) := do
  return (← steps.mapM (Step.actions as)).flatten

/-- No action of the step starts the module or switches to another flow. -/
def Step.Measuring (as : Artifacts) (step : Step) : Prop :=
  ∀ actions, step.actions as = .ok actions → ∀ action ∈ actions, action.Measuring

theorem Step.allActions_cons_eq_ok_iff {as : Artifacts} {step : Step} {steps : List Step}
    {actions : List Action} : allActions as (step :: steps) = .ok actions ↔
      ∃ first rest, step.actions as = .ok first ∧ allActions as steps = .ok rest ∧ actions = first ++ rest := by
  simp only [allActions, List.mapM_cons, bind_eq_ok_iff]
  constructor
  · rintro ⟨_, ⟨first, hfirst, lists, hlists, hcons⟩, hflat⟩
    cases hcons
    cases hflat
    exact ⟨first, lists.flatten, hfirst, ⟨lists, hlists, rfl⟩, rfl⟩
  · rintro ⟨first, _, hfirst, ⟨lists, hlists, hflat⟩, rfl⟩
    cases hflat
    exact ⟨_, ⟨first, hfirst, lists, hlists, rfl⟩, rfl⟩

variable {as : Artifacts} {algs : List Algorithm} {locality : Option UInt8} {log : List Event} {m : Machine}

/-! ## From action to action -/

namespace Progress

variable {p : Progress} {actor : Nat → Actor} {index : Nat}

theorem stands_act {action : Action} (h : p.machine.Stands as algs locality log)
    (hmeasuring : action.Measuring) (hok : (p.act actor index action).failure = none) :
    (p.act actor index action).next = p.next ∧ ∃ events, action.Logs as algs events ∧
      (p.act actor index action).machine.Stands as algs locality (log ++ events) := by
  cases happly : action.apply p.machine (actor index) with
  | mk after result =>
    rw [act, happly] at hok ⊢
    cases result with
    | error e => cases hok
    | ok outcome =>
      obtain ⟨hnone, events, hlogs, hstands⟩ := h.apply hmeasuring happly
      refine ⟨?_, events, hlogs, ?_⟩
      · rw [next_note, hnone, Option.none_or]
      · rwa [machine_note]

/-- The actions of a step, when none of them fails. -/
theorem stands_perform {actions : List Action} (h : p.machine.Stands as algs locality log)
    (hmeasuring : ∀ action ∈ actions, action.Measuring)
    (hok : (p.perform actor index actions).failure = none) :
    (p.perform actor index actions).next = p.next ∧
      ∃ events, List.Forall₂ (Action.Logs as algs) actions events ∧
        (p.perform actor index actions).machine.Stands as algs locality (log ++ events.flatten) := by
  induction actions generalizing p index log with
  | nil => exact ⟨rfl, [], .nil, by rwa [List.flatten_nil, List.append_nil]⟩
  | cons action rest ih =>
    obtain ⟨haction, hrest⟩ := List.forall_mem_cons.mp hmeasuring
    rw [perform] at hok ⊢
    cases hfailure : (p.act actor index action).failure with
    | some reason =>
      rw [hfailure] at hok
      dsimp only at hok
      rw [hfailure] at hok
      cases hok
    | none =>
      rw [hfailure] at hok
      obtain ⟨hnext, events, hlogs, hstands⟩ := stands_act h haction hfailure
      obtain ⟨hnext', others, hothers, hstands'⟩ := ih hstands hrest hok
      refine ⟨hnext'.trans hnext, events :: others, .cons hlogs hothers, ?_⟩
      rwa [List.flatten_cons, ← List.append_assoc]

end Progress

/-! ## From step to step -/

namespace Run.At

variable {run : Run} {flow : Flow} {index : Nat}

/-- A step of a run that finishes, when the step measures. -/
theorem stands_take {step : Step} (h : run.At m flow index) (hstep : flow.steps[index]? = some step)
    (hfinished : run.finish.status = .finished) (hmeasuring : step.Measuring as)
    (hstands : m.Stands as algs locality log) :
    ∃ actions events, step.actions as = .ok actions ∧ List.Forall₂ (Action.Logs as algs) actions events ∧
      ∃ (after : Machine) (next : Run), run.finish = next.finish ∧ next.At after flow (index + 1) ∧
        after.Stands as algs locality (log ++ events.flatten) := by
  obtain ⟨hok, next, hnext, hmoves⟩ := h.take hstep hfinished
  cases hactions : step.actions as with
  | error reason =>
    rw [Run.take, h.machine_eq, hstands.booked.1, hactions] at hok
    cases hok
  | ok actions =>
    rw [Run.take, h.machine_eq, hstands.booked.1, hactions] at hok hmoves
    obtain ⟨hnone, events, hlogs, hafter⟩ :=
      Progress.stands_perform hstands (hmeasuring actions hactions) hok
    rw [hnone] at hmoves
    exact ⟨actions, events, rfl, hlogs, _, next, hnext, hmoves, hafter⟩

/-- The remaining steps of a run that finishes, when all of them measure. The induction is on the steps
that are left. -/
theorem stands_finish {steps : List Step} (h : run.At m flow index)
    (hsteps : flow.steps.drop index = steps) (hfinished : run.finish.status = .finished)
    (hmeasuring : ∀ step ∈ steps, step.Measuring as) (hstands : m.Stands as algs locality log) :
    ∃ actions events, Step.allActions as steps = .ok actions ∧
      List.Forall₂ (Action.Logs as algs) actions events ∧
      run.finish.machine.Stands as algs locality (log ++ events.flatten) := by
  induction steps generalizing run m index log with
  | nil =>
    have hend : flow.steps[index]? = none :=
      List.getElem?_eq_none (List.drop_eq_nil_iff.mp hsteps)
    refine ⟨[], [], rfl, .nil, ?_⟩
    rw [h.finish hend, List.flatten_nil, List.append_nil]
    exact hstands.finish
  | cons step rest ih =>
    have hstep : flow.steps[index]? = some step := by
      rw [← Nat.add_zero index, ← List.getElem?_drop, hsteps]
      rfl
    have hrest : flow.steps.drop (index + 1) = rest := by
      rw [← List.drop_drop, hsteps]
      rfl
    obtain ⟨hfirst, hothers⟩ := List.forall_mem_cons.mp hmeasuring
    obtain ⟨actions, events, hactions, hlogs, after, next, hnext, hat, hafter⟩ :=
      h.stands_take hstep hfinished hfirst hstands
    rw [hnext] at hfinished ⊢
    obtain ⟨actions', events', hactions', hlogs', hend⟩ := ih hat hrest hfinished hothers hafter
    refine ⟨actions ++ actions', events ++ events',
      Step.allActions_cons_eq_ok_iff.mpr ⟨actions, actions', hactions, hactions', rfl⟩,
      List.rel_append hlogs hlogs', ?_⟩
    rwa [List.flatten_append, ← List.append_assoc]

end Run.At

/-! ## What is measured -/

/-- The bytes by which an action extends a PCR; there are none to be extended by if all are missing. -/
def Action.payloads (as : Artifacts) (pcr : UInt8) : Action → List ByteArray
  | .extend other source =>
    match source.fetch as with
    | .ok (_, bytes) => if other = pcr ∧ bytes.isEmpty = false then [bytes] else []
    | .error _ => []
  | .event _ _ _ | .initTpm _ | .panic _ | .switchTo _ => []

/-- The PCR value that some data makes of an initial value, measured piece by piece. -/
def Algorithm.measureAll (alg : Algorithm) (initial : ByteArray) (payloads : List ByteArray) :
    Except TpmError ByteArray := do
  alg.extendAll initial (← payloads.mapM alg.hash)

/-- A filter that lets one element through at most. -/
theorem filter_of_nodup {α : Type} {xs : List α} {x : α} {p : α → Bool} (hnodup : xs.Nodup) (hx : x ∈ xs)
    (hp : ∀ y, p y = true → y = x) : xs.filter p = [x].filter p := by
  induction xs with
  | nil => exact absurd hx List.not_mem_nil
  | cons y rest ih =>
    obtain ⟨hy, hrest⟩ := List.nodup_cons.mp hnodup
    by_cases hyx : y = x
    · subst hyx
      have hnone : rest.filter p = [] :=
        List.filter_eq_nil_iff.mpr fun z hz hpz => hy (hp z hpz ▸ hz)
      rw [List.filter_cons, List.filter_cons, hnone, List.filter_nil]
    · have hmem := (List.mem_cons.mp hx).resolve_left fun h => hyx h.symm
      rw [List.filter_cons_of_neg fun hpy => hyx (hp y hpy), ih hrest hmem]

section Digests

variable {alg : Algorithm} (hnodup : algs.Nodup) (halg : alg ∈ algs)

include hnodup halg

/-- Of the events of a measurement, a bank has one. -/
theorem MeasuredData.filter_events (record : MeasuredData) (kind : EventKind) (pcr : UInt8)
    (bytes : ByteArray) (description : String) {P : Event → Bool} (hP : ∀ e, P e = true → e.alg = alg) :
    (algs.map (record.event kind pcr bytes description)).filter P =
      [record.event kind pcr bytes description alg].filter P := by
  have hone : algs.filter (P ∘ record.event kind pcr bytes description) =
      [alg].filter (P ∘ record.event kind pcr bytes description) :=
    filter_of_nodup hnodup halg fun a ha => hP _ ha
  rw [List.filter_map, hone, ← List.filter_map, List.map_singleton]

theorem MeasuredData.filter_isExtension (record : MeasuredData) (kind : EventKind) (other : UInt8)
    (bytes : ByteArray) (description : String) (pcr : UInt8) :
    (algs.map (record.event kind other bytes description)).filter (·.isExtension pcr alg) =
      if other = pcr ∧ kind = .extend then [record.event kind other bytes description alg] else [] := by
  have hiff : (record.event kind other bytes description alg).isExtension pcr alg = true ↔
      other = pcr ∧ kind = .extend :=
    Event.isExtension_iff.trans ⟨fun h => ⟨h.1, h.2.2⟩, fun h => ⟨h.1, rfl, h.2⟩⟩
  rw [record.filter_events hnodup halg _ _ _ _ fun e he => (Event.isExtension_iff.mp he).2.1]
  split
  · rename_i hext
    exact List.filter_cons_of_pos (hiff.mpr hext)
  · rename_i hext
    exact List.filter_cons_of_neg fun h => hext (hiff.mp h)

theorem Action.Logs.digests {action : Action} {events : List Event} (h : action.Logs as algs events)
    (hhash : alg.isHash = true) (pcr : UInt8) :
    (action.payloads as pcr).mapM alg.hash =
      .ok ((events.filter (·.isExtension pcr alg)).map (·.digest)) := by
  cases h with
  | @extend other source data bytes actor hfetch =>
    rw [payloads, hfetch, extensions]
    dsimp only
    cases hempty : bytes.isEmpty with
    | true =>
      rw [if_pos rfl, if_neg fun h => Bool.noConfusion h.2]
      rfl
    | false =>
      rw [if_neg Bool.false_ne_true, MeasuredData.filter_isExtension hnodup halg]
      by_cases hpcr : other = pcr
      · rw [if_pos ⟨hpcr, rfl⟩, if_pos ⟨hpcr, rfl⟩, List.mapM_cons,
          MeasuredData.hash_eq_digest_event _ .extend other bytes _ hhash]
        rfl
      · rw [if_neg fun h => hpcr h.1, if_neg fun h => hpcr h.1]
        rfl
  | event actor hfetch =>
    rw [MeasuredData.filter_isExtension hnodup halg, if_neg fun h => absurd h.2 (by decide)]
    rfl
  | skipped hfetch => rfl

/-- The digests of the extensions that some actions log, one after the other. -/
theorem Action.digests_of_logs {actions : List Action} {events : List (List Event)}
    (h : List.Forall₂ (Logs as algs) actions events) (hhash : alg.isHash = true) (pcr : UInt8) :
    (actions.flatMap (·.payloads as pcr)).mapM alg.hash =
      .ok ((events.flatten.filter (·.isExtension pcr alg)).map (·.digest)) := by
  induction h with
  | nil => rfl
  | cons hfirst _ ih =>
    rw [List.flatMap_cons, List.mapM_append, hfirst.digests hnodup halg hhash, ih, List.flatten_cons,
      List.filter_append, List.map_append]
    rfl

end Digests

/-! ## PCR values -/

/-- The value of each PCR, by the digests of its extensions in the event log. -/
theorem Machine.Stands.accounts {locality : UInt8} (h : m.Stands as algs (some locality) log) :
    ∃ tpm, m.tpm = some tpm ∧ tpm.locality = some locality ∧ tpm.eventLog = log ∧
      (∀ alg ∈ algs, alg.isHash = true) ∧ algs.Nodup ∧
      ∀ pcr alg, pcr.toNat < Tpm.pcrCount → alg ∈ algs → tpm.Accounts locality pcr alg := by
  obtain ⟨⟨-, tpm, htpm, rfl, hbooked⟩, hlocality, hlog⟩ := h
  rw [locality?_of_tpm htpm] at hlocality
  rw [log_of_tpm htpm] at hlog
  exact ⟨tpm, htpm, hlocality, hlog, hbooked.balanced.isHash, hbooked.balanced.nodup,
    hbooked.balanced.accounts locality hlocality⟩

/-- A flow that starts the module and then measures leaves in each PCR what the actions of its steps measure
into it. -/
theorem Run.At.pcrValue_finish {run : Run} {name : String} {wanted : UInt8} {steps : List Step}
    (h : run.At m (.mk name (.initTpm wanted :: steps)) 0) (hfinished : run.finish.status = .finished)
    (hmeasuring : ∀ step ∈ steps, step.Measuring as) (hstands : m.Stands as algs locality []) :
    ∃ actions events tpm, Step.allActions as steps = .ok actions ∧
      List.Forall₂ (Action.Logs as algs) actions events ∧
      run.finish.machine.tpm = some tpm ∧ tpm.locality = some wanted ∧ tpm.eventLog = events.flatten ∧
      ∀ pcr alg, pcr.toNat < Tpm.pcrCount → alg ∈ algs →
        ∃ initial value, alg.initialValue pcr wanted = .ok initial ∧
          alg.measureAll initial (actions.flatMap (·.payloads as pcr)) = .ok value ∧
          tpm.pcrValue pcr alg = .ok value := by
  obtain ⟨actor, started, outcome, happly, next, hnext, hmoves⟩ := h.single rfl rfl hfinished
  obtain ⟨hnone, hstarted⟩ := hstands.initTpm happly
  rw [hnone] at hmoves
  rw [hnext] at hfinished ⊢
  obtain ⟨actions, events, hactions, hlogs, hend⟩ :=
    stands_finish hmoves rfl hfinished hmeasuring hstarted
  obtain ⟨tpm, htpm, hlocality, hlog, hhash, hnodup, haccounts⟩ := hend.accounts
  refine ⟨actions, events, tpm, hactions, hlogs, htpm, hlocality, hlog, fun pcr alg hpcr halg => ?_⟩
  obtain ⟨initial, value, hinitial, hvalue, hget⟩ := haccounts pcr alg hpcr halg
  refine ⟨initial, value, hinitial, ?_, hget⟩
  rw [Algorithm.measureAll, Action.digests_of_logs hnodup halg hlogs (hhash alg halg) pcr, ok_bind]
  rwa [Tpm.extensions, hlog] at hvalue

end MeasuredBoot
