import MeasuredBoot.Proofs.Run.Steps
import MeasuredBoot.Proofs.Tpm.Slots

/-!
# PCR values and the event log of a run

At every point of a run from a new module the event log accounts for the PCR values:
`Run.eventLog_accounts`. The books of the module are kept by every action, also by one that fails, by
switches of the flow and by the end of the run (`Machine.kept_booked`), and so is the module within its
slots (`Machine.kept_confined`).
-/

namespace MeasuredBoot

namespace Machine

/-- A machine with given artifacts and a module with given banks, whose books are kept. -/
def Booked (as : Artifacts) (algs : List Algorithm) (m : Machine) : Prop :=
  m.artifacts = as ∧ ∃ tpm, m.tpm = some tpm ∧ tpm.algorithms = algs ∧ tpm.Booked as

/-- What an action can do keeps the artifacts, the banks and the books. -/
theorem Booked.effect {as : Artifacts} {algs : List Algorithm} {m after : Machine} {actor : Actor}
    (heffect : m.Effect actor after) (h : m.Booked as algs) : after.Booked as algs := by
  obtain ⟨rfl, tpm, htpm, rfl, hbooked⟩ := h
  cases heffect with
  | none => exact ⟨rfl, tpm, htpm, rfl, hbooked⟩
  | started htpm' locality =>
    obtain rfl : _ = tpm := Option.some.inj (htpm'.symm.trans htpm)
    exact ⟨rfl, _, rfl, Tpm.algorithms_initLazy .., hbooked.initLazy ..⟩
  | measured htpm' hactor hbytes hcommands hopen happly =>
    obtain rfl : _ = tpm := Option.some.inj (htpm'.symm.trans htpm)
    rw [MeasuredData.commands_eq _ _ _ _ _ hbooked.balanced.isHash] at hcommands
    cases hcommands
    exact ⟨rfl, _, rfl, (Tpm.follows_of_applyAll happly).algorithms_eq,
      (hbooked.measure hbytes happly).relog ..⟩

theorem kept_booked (as : Artifacts) (algs : List Algorithm) : Kept (Booked as algs) where
  effect heffect h := h.effect heffect
  flow _ h := h
  finish := by
    rintro m ⟨has, tpm, htpm, halgs, hbooked⟩
    refine ⟨has, tpm.finish, ?_, halgs, hbooked.finish⟩
    rw [finish, htpm]
    rfl

/-- A machine with a module whose books are kept and that stays within its slots. -/
def Confined (as : Artifacts) (algs : List Algorithm) (m : Machine) : Prop :=
  m.Booked as algs ∧ ∀ tpm, m.tpm = some tpm → tpm.Confined

theorem Confined.effect {as : Artifacts} {algs : List Algorithm} {m after : Machine} {actor : Actor}
    (heffect : m.Effect actor after) (h : m.Confined as algs) : after.Confined as algs := by
  refine ⟨h.1.effect heffect, fun tpm htpm => ?_⟩
  obtain ⟨⟨-, _, htpm', -, hbooked⟩, hconfined⟩ := h
  cases heffect with
  | none => exact hconfined tpm htpm
  | started hbefore locality =>
    obtain rfl := Option.some.inj htpm
    exact (hconfined _ hbefore).initLazy ..
  | measured hbefore hactor hbytes hcommands hopen happly =>
    obtain rfl := Option.some.inj (hbefore.symm.trans htpm')
    rw [MeasuredData.commands_eq _ _ _ _ _ hbooked.balanced.isHash] at hcommands
    cases hcommands
    obtain rfl := Option.some.inj htpm
    obtain ⟨hvalues, hevents⟩ := (hconfined _ hbefore).measure happly
    exact ⟨hvalues, hevents⟩

theorem kept_confined (as : Artifacts) (algs : List Algorithm) : Kept (Confined as algs) where
  effect heffect h := h.effect heffect
  flow _ h := ⟨(kept_booked as algs).flow _ h.1, h.2⟩
  finish {m} h := by
    refine ⟨(kept_booked as algs).finish h.1, fun tpm htpm => ?_⟩
    obtain ⟨before, hbefore, rfl⟩ := Option.map_eq_some_iff.mp htpm
    obtain ⟨hvalues, hevents⟩ := h.2 before hbefore
    exact ⟨hvalues, hevents⟩

/-- A new module is confined to its slots, whatever it will measure. -/
theorem confined_of_isNew {algs : List Algorithm} {tpm : Tpm} {m : Machine} (hnew : tpm.IsNew algs)
    (hm : m.tpm = some tpm) : m.Confined m.artifacts tpm.algorithms := by
  refine ⟨⟨rfl, tpm, hm, rfl, hnew.booked _⟩, fun other hother => ?_⟩
  obtain rfl := Option.some.inj (hm.symm.trans hother)
  obtain ⟨-, rfl⟩ := Tpm.of_withAlgorithms hnew.withAlgorithms
  exact Tpm.Confined.of_algorithms _

end Machine

namespace Run

/-- Of a machine with a new module, at every point of its run: a PCR has the value that the digests
of its extensions in the event log make of its initial value, every extension can be checked against
the artifacts, and all banks were extended by the same actions. -/
theorem eventLog_accounts {algs : List Algorithm} {built tpm : Tpm} {m : Machine} {run : Run}
    {locality pcr : UInt8} {alg : Algorithm} (hnew : built.IsNew algs) (hm : m.tpm = some built)
    (hrun : (ofMachine m).Reaches run) (htpm : run.machine.tpm = some tpm)
    (hlocality : tpm.locality = some locality) (hpcr : pcr.toNat < Tpm.pcrCount)
    (halg : alg ∈ algs) :
    (∃ initial value, alg.initialValue pcr locality = .ok initial ∧
      alg.extendAll initial ((tpm.extensions pcr alg).map (·.digest)) = .ok value ∧
      tpm.pcrValue pcr alg = .ok value) ∧
    (∀ e ∈ tpm.extensions pcr alg, ∃ record bytes, e.measured = some record ∧
      record.data.bytes run.machine.artifacts = .ok bytes ∧ alg.hash bytes = .ok e.digest) ∧
    ∀ other ∈ algs,
      (tpm.extensions pcr other).map Event.cause? = (tpm.extensions pcr alg).map Event.cause? := by
  have hstart : m.Booked m.artifacts built.algorithms := ⟨rfl, built, hm, rfl, hnew.booked _⟩
  obtain ⟨has, tpm', htpm', hbanks, hbooked⟩ := (Machine.kept_booked _ _).reaches hrun hstart
  obtain rfl : tpm' = tpm := Option.some.inj (htpm'.symm.trans htpm)
  have hmem (a : Algorithm) (ha : a ∈ algs) : a ∈ tpm'.algorithms :=
    hbanks ▸ (Tpm.mem_algorithms_iff hnew.withAlgorithms a).mpr ha
  refine ⟨hbooked.balanced.accounts locality hlocality pcr alg hpcr (hmem alg halg), ?_, ?_⟩
  · intro e he
    obtain ⟨hlog, hext⟩ := List.mem_filter.mp he
    obtain ⟨record, bytes, hmeasured, hbytes, hdigest⟩ := hbooked.backed e hlog
    rw [(Event.isExtension_iff.mp hext).2.1] at hdigest
    exact ⟨record, bytes, hmeasured, has ▸ hbytes, hdigest⟩
  · intro other hother
    exact hbooked.uniform pcr other (hmem other hother) alg (hmem alg halg)

/-- A machine that starts its module and measures a byte into PCR 0. -/
def measuresByte : Machine :=
  { tpm := some Tpm.fresh
    flow := some (.mk "byte" [.static [.initTpm 3], .static [.extend 0 (.bytes ⟨#[1]⟩)]]) }

theorem eventLog_accounts_measuresByte :
    ∃ tpm initial value, (ofMachine measuresByte).next.1.next.1.machine.tpm = some tpm ∧
      (tpm.extensions 0 .sha256).length = 1 ∧
      Algorithm.sha256.initialValue 0 3 = .ok initial ∧
      Algorithm.sha256.extendAll initial ((tpm.extensions 0 .sha256).map (·.digest)) = .ok value ∧
      tpm.pcrValue 0 .sha256 = .ok value := by
  let tpm := (ofMachine measuresByte).next.1.next.1.machine.tpm.get (by decide +kernel)
  have htpm : (ofMachine measuresByte).next.1.next.1.machine.tpm = some tpm :=
    (Option.some_get _).symm
  have hlocality : tpm.locality = some 3 := by decide +kernel
  have hlength : (tpm.extensions 0 .sha256).length = 1 := by decide +kernel
  obtain ⟨⟨initial, value, haccounts⟩, -⟩ :=
    eventLog_accounts (.inl ⟨rfl, rfl⟩) rfl (.next (.next .start)) htpm hlocality
      (show (0 : UInt8).toNat < Tpm.pcrCount by decide)
      (show Algorithm.sha256 ∈ Tpm.defaultAlgorithms by decide)
  exact ⟨tpm, initial, value, htpm, hlength, haccounts⟩

end Run

end MeasuredBoot
