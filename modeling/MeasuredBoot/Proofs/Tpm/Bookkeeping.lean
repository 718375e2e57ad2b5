import MeasuredBoot.Machine
import MeasuredBoot.Proofs.Tpm.Transaction
import Mathlib.Data.List.Nodup

/-!
# Event log and PCR values

A measurement is one batch: in every bank it extends a PCR and logs an event, or only logs one. A
module that is changed by measurements and starts alone has an event log that explains its PCR
values.

* `MeasuredData.commands_eq`: the batch of a measurement;
* `Tpm.Balanced`: PCR values are what the extensions in the event log make of the initial values;
* `Tpm.Booked`: besides, the events can be checked against the artifacts, and they stem from the
  same actions in all banks;
* `Tpm.Booked.start`, `Tpm.Booked.measure`: starts and measurements keep the books;
* `Tpm.IsNew`, `Tpm.IsNew.booked`: a new module, whose books are empty.
-/

namespace MeasuredBoot

namespace Event

/-- Whether an event came with an extension of a PCR in the bank of an algorithm. -/
def isExtension (e : Event) (pcr : UInt8) (alg : Algorithm) : Bool :=
  e.isFor pcr alg && e.kind = .extend

/-- The place of the action that measured what the event logs. -/
def cause? (e : Event) : Option Coordinates := e.measured.map (·.actor.coords)

/-- The event has a record of what was measured, whose bytes have the digest of the event. -/
def Backed (as : Artifacts) (e : Event) : Prop :=
  ∃ record bytes, e.measured = some record ∧ record.data.bytes as = .ok bytes ∧
    e.alg.hash bytes = .ok e.digest

theorem isExtension_iff {e : Event} {pcr : UInt8} {alg : Algorithm} :
    e.isExtension pcr alg = true ↔ e.pcr = pcr ∧ e.alg = alg ∧ e.kind = .extend := by
  rw [isExtension, isFor, Bool.and_eq_true, Bool.and_eq_true, beq_iff_eq, beq_iff_eq,
    decide_eq_true_iff, and_assoc]

end Event

/-! ## The batch of a measurement -/

namespace MeasuredData

variable (record : MeasuredData) (kind : EventKind) (pcr : UInt8) (bytes : ByteArray)
  (description : String)

/-- The event that logs a measurement in the bank of a hash function. -/
def event (alg : Algorithm) : Event :=
  { pcr, alg, digest := (alg.digest? bytes).getD ByteArray.empty, kind, description
    measured := some record }

/-- The commands of a measurement in the bank of a hash function. -/
def entries (alg : Algorithm) : List Command :=
  match kind with
  | .extend =>
    [.extend pcr alg (record.event kind pcr bytes description alg).digest,
      .eventLogAdd (record.event kind pcr bytes description alg)]
  | .informational => [.eventLogAdd (record.event kind pcr bytes description alg)]

theorem hash_eq_digest_event {alg : Algorithm} (h : alg.isHash = true) :
    alg.hash bytes = .ok (record.event kind pcr bytes description alg).digest := by
  rw [← alg.isSome_digest? bytes] at h
  obtain ⟨digest, hdigest⟩ := Option.isSome_iff_exists.mp h
  simp only [Algorithm.hash, event, hdigest, Option.getD_some]

/-- The digests of a measurement have the size of their banks. -/
theorem digestSize?_event {alg : Algorithm} (h : alg.isHash = true) :
    alg.digestSize? = some (record.event kind pcr bytes description alg).digest.size := by
  obtain ⟨digest, hdigest⟩ := Option.isSome_iff_exists.mp ((alg.isSome_digest? bytes).trans h)
  rw [event, hdigest]
  exact Algorithm.size_of_digest? hdigest

theorem commandsFor_eq {alg : Algorithm} (h : alg.isHash = true) :
    record.commandsFor kind pcr bytes description alg =
      .ok (record.entries kind pcr bytes description alg) := by
  rw [commandsFor, record.hash_eq_digest_event kind pcr bytes description h]
  cases kind <;> rfl

/-- A measurement is logged in every bank, and extends every bank or none. -/
theorem commands_eq {algs : List Algorithm} (h : ∀ alg ∈ algs, alg.isHash = true) :
    record.commands kind pcr bytes description algs =
      .ok (algs.flatMap (record.entries kind pcr bytes description)) := by
  have hmap : algs.mapM (record.commandsFor kind pcr bytes description) =
      .ok (algs.map (record.entries kind pcr bytes description)) := by
    induction algs with
    | nil => rfl
    | cons alg rest ih =>
      obtain ⟨halg, hrest⟩ := List.forall_mem_cons.mp h
      rw [List.mapM_cons, record.commandsFor_eq kind pcr bytes description halg, ih hrest]
      rfl
  rw [commands, hmap]
  rfl

/-- The events of a measurement that extend a PCR in a bank all have the same cause. -/
theorem causes_events (algs : List Algorithm) (other : UInt8) (alg : Algorithm) :
    ((algs.map (record.event kind pcr bytes description)).filter (·.isExtension other alg)).map
        Event.cause? =
      if pcr = other ∧ kind = .extend then
        List.replicate (algs.count alg) (some record.actor.coords)
      else [] := by
  induction algs with
  | nil => simp only [List.map_nil, List.filter_nil, List.count_nil, List.replicate_zero, ite_self]
  | cons a rest ih =>
    have hiff : (record.event kind pcr bytes description a).isExtension other alg = true ↔
        pcr = other ∧ a = alg ∧ kind = .extend := Event.isExtension_iff
    rw [List.map_cons, List.filter_cons]
    by_cases hext : pcr = other ∧ kind = .extend
    · rw [if_pos hext] at ih ⊢
      by_cases ha : a = alg
      · rw [if_pos (hiff.mpr ⟨hext.1, ha, hext.2⟩), List.map_cons, ih, ha, List.count_cons_self,
          List.replicate_succ]
        rfl
      · rw [if_neg fun h => ha (hiff.mp h).2.1, ih, List.count_cons_of_ne ha]
    · rw [if_neg hext] at ih ⊢
      rw [if_neg fun h => hext ⟨(hiff.mp h).1, (hiff.mp h).2.2⟩, ih]

theorem init_not_mem_entries (algs : List Algorithm) (locality : UInt8) :
    .init locality ∉ algs.flatMap (record.entries kind pcr bytes description) := by
  rw [List.mem_flatMap]
  rintro ⟨alg, -, hmem⟩
  cases kind <;> simp [entries] at hmem

end MeasuredData

/-! ## Balance of a module -/

namespace Algorithm

theorem extendAll_concat {alg : Algorithm} {initial value digest extended : ByteArray}
    {digests : List ByteArray} (h : alg.extendAll initial digests = .ok value)
    (hextend : alg.extend value digest = .ok extended) :
    alg.extendAll initial (digests ++ [digest]) = .ok extended := by
  rw [extendAll] at h ⊢
  rw [List.foldlM_append, h]
  show (alg.extend value digest >>= pure) = _
  rw [hextend]
  rfl

end Algorithm

namespace PcrValues

/-- The value of a PCR in the bank of an algorithm is what digests make of the initial value. -/
def ExtendedBy (values : PcrValues) (locality pcr : UInt8) (alg : Algorithm)
    (digests : List ByteArray) : Prop :=
  ∃ initial value, alg.initialValue pcr locality = .ok initial ∧
    alg.extendAll initial digests = .ok value ∧ values.get pcr alg = .ok value

/-- A start leaves the initial values. -/
theorem extendedBy_startingValues {algs : List Algorithm} {locality pcr : UInt8} {alg : Algorithm}
    {values : PcrValues} (h : Tpm.startingValues algs locality = .ok values)
    (hpcr : pcr.toNat < Tpm.pcrCount) (halg : alg ∈ algs) (hhash : alg.isHash = true) :
    values.ExtendedBy locality pcr alg [] := by
  obtain ⟨initial, hinitial⟩ := Algorithm.exists_initialValue hhash pcr locality
  exact ⟨initial, initial, hinitial, rfl, (Tpm.get_startingValues h hpcr halg hhash).trans hinitial⟩

/-- Extending a PCR in one bank adds a digest there, and none to any other PCR or bank. -/
theorem ExtendedBy.extend {values after : PcrValues} {locality pcr other : UInt8}
    {alg alg' : Algorithm} {digests : List ByteArray} {old digest value : ByteArray}
    (h : values.ExtendedBy locality other alg' digests) (hold : values.get pcr alg = .ok old)
    (hvalue : alg.extend old digest = .ok value) (hset : values.set pcr alg value = .ok after) :
    after.ExtendedBy locality other alg'
      (digests ++ if pcr = other ∧ alg = alg' then [digest] else []) := by
  obtain ⟨initial, last, hinitial, hall, hlast⟩ := h
  rw [ExtendedBy, get_of_set hset]
  by_cases hsame : pcr = other ∧ alg = alg'
  · obtain ⟨rfl, rfl⟩ := hsame
    obtain rfl : old = last := Except.ok.inj (hold.symm.trans hlast)
    rw [if_pos ⟨rfl, rfl⟩, if_pos ⟨rfl, rfl⟩]
    exact ⟨initial, value, hinitial, Algorithm.extendAll_concat hall hvalue, rfl⟩
  · rw [if_neg hsame, if_neg fun h => hsame ⟨h.1.symm, h.2.symm⟩, List.append_nil]
    exact ⟨initial, last, hinitial, hall, hlast⟩

end PcrValues

namespace Tpm

/-- The events that came with an extension of a PCR in the bank of an algorithm, in order. -/
def extensions (tpm : Tpm) (pcr : UInt8) (alg : Algorithm) : List Event :=
  tpm.eventLog.filter (·.isExtension pcr alg)

/-- The value of a PCR is its initial value extended by the digests of its extensions. -/
def Accounts (tpm : Tpm) (locality pcr : UInt8) (alg : Algorithm) : Prop :=
  ∃ initial value, alg.initialValue pcr locality = .ok initial ∧
    alg.extendAll initial ((tpm.extensions pcr alg).map (·.digest)) = .ok value ∧
    tpm.pcrValue pcr alg = .ok value

theorem accounts_iff {tpm : Tpm} {locality pcr : UInt8} {alg : Algorithm} :
    tpm.Accounts locality pcr alg ↔
      tpm.pcrs.ExtendedBy locality pcr alg ((tpm.extensions pcr alg).map (·.digest)) := Iff.rfl

/-- A module whose PCR values are explained by its event log. Before its start it has no values and
no extensions. -/
structure Balanced (tpm : Tpm) : Prop where
  banks : tpm.algorithms.Sublist Algorithm.hashes
  unstarted : tpm.locality = none → tpm.pcrs = [] ∧ ∀ pcr alg, tpm.extensions pcr alg = []
  accounts : ∀ locality, tpm.locality = some locality →
    ∀ pcr alg, pcr.toNat < pcrCount → alg ∈ tpm.algorithms → tpm.Accounts locality pcr alg

theorem extensions_append {before after : Tpm} {events : List Event}
    (h : after.eventLog = before.eventLog ++ events) (pcr : UInt8) (alg : Algorithm) :
    after.extensions pcr alg =
      before.extensions pcr alg ++ events.filter (·.isExtension pcr alg) := by
  rw [extensions, h, List.filter_append, extensions]

theorem extensions_concat {before after : Tpm} {event : Event}
    (h : after.eventLog = before.eventLog ++ [event]) (pcr : UInt8) (alg : Algorithm) :
    after.extensions pcr alg =
      before.extensions pcr alg ++ if event.isExtension pcr alg then [event] else [] := by
  rw [extensions_append h, List.filter_cons, List.filter_nil]

/-- An event that does not extend anything is no extension of any PCR. -/
theorem extensions_informational {before after : Tpm} {event : Event}
    (h : after.eventLog = before.eventLog ++ [event]) (hkind : event.kind = .informational)
    (pcr : UInt8) (alg : Algorithm) : after.extensions pcr alg = before.extensions pcr alg := by
  have hno : ¬event.isExtension pcr alg = true := by
    rw [Event.isExtension_iff, hkind]
    exact fun h => nomatch h.2.2
  rw [extensions_concat h, if_neg hno, List.append_nil]

namespace Balanced

variable {tpm after : Tpm}

theorem isHash (h : tpm.Balanced) : ∀ alg ∈ tpm.algorithms, alg.isHash = true := by
  intro alg hmem
  exact alg.mem_hashes_iff.mp (h.banks.subset hmem)

theorem nodup (h : tpm.Balanced) : tpm.algorithms.Nodup :=
  h.banks.nodup (by decide)

theorem of_algorithms {algs : List Algorithm} (h : algs.Sublist Algorithm.hashes) :
    Balanced { algorithms := algs } where
  banks := h
  unstarted _ := ⟨rfl, fun _ _ => rfl⟩
  accounts _ h := nomatch h

/-- Neither the command log nor a closing matters. -/
theorem relog (h : tpm.Balanced) (log : List LoggedCommand) (finished : Bool) :
    Balanced { tpm with commandLog := log, finished } :=
  ⟨h.banks, h.unstarted, h.accounts⟩

/-- A start gives every PCR its initial value. -/
theorem start {locality : UInt8} (h : tpm.Balanced) (hstart : tpm.start locality = .ok after) :
    after.Balanced := by
  obtain ⟨hnone, pcrs, hpcrs, rfl⟩ := start_eq_ok_iff.mp hstart
  refine ⟨h.banks, nofun, fun l hl pcr alg hpcr halg => ?_⟩
  cases hl
  have hnoext : Tpm.extensions { tpm with pcrs, locality := some locality } pcr alg = [] :=
    (h.unstarted hnone).2 pcr alg
  rw [accounts_iff, hnoext]
  exact PcrValues.extendedBy_startingValues hpcrs hpcr halg (h.isHash alg halg)

/-- An event is logged that extends nothing. -/
theorem informational {event : Event} (h : tpm.Balanced) (hkind : event.kind = .informational) :
    { tpm with eventLog := tpm.eventLog ++ [event] }.Balanced where
  banks := h.banks
  unstarted hnone := by
    refine ⟨(h.unstarted hnone).1, fun pcr alg => ?_⟩
    rw [extensions_informational rfl hkind]
    exact (h.unstarted hnone).2 pcr alg
  accounts l hl pcr alg hpcr halg := by
    obtain ⟨initial, value, hinitial, hall, hget⟩ := h.accounts l hl pcr alg hpcr halg
    refine ⟨initial, value, hinitial, ?_, hget⟩
    rw [extensions_informational rfl hkind]
    exact hall

/-- A PCR is extended and the event of it logged. -/
theorem extension {event : Event} {old value : ByteArray} {pcrs : PcrValues} (h : tpm.Balanced)
    (hkind : event.kind = .extend) (hold : tpm.pcrs.get event.pcr event.alg = .ok old)
    (hvalue : event.alg.extend old event.digest = .ok value)
    (hpcrs : tpm.pcrs.set event.pcr event.alg value = .ok pcrs)
    (hafter : after = { tpm with pcrs, eventLog := tpm.eventLog ++ [event] }) :
    after.Balanced := by
  subst hafter
  constructor
  · exact h.banks
  · intro hnone
    rw [(h.unstarted hnone).1] at hold
    cases hold
  · intro l hl pcr alg hpcr halg
    have hmore := (accounts_iff.mp (h.accounts l hl pcr alg hpcr halg)).extend hold hvalue hpcrs
    have hext : event.isExtension pcr alg = true ↔ event.pcr = pcr ∧ event.alg = alg := by
      rw [Event.isExtension_iff, ← and_assoc]
      exact and_iff_left hkind
    rw [accounts_iff, extensions_concat rfl, List.map_append]
    simp only [hext, apply_ite (List.map Event.digest), List.map_cons, List.map_nil]
    exact hmore

/-- A measurement in one bank. -/
theorem entries {record : MeasuredData} {kind : EventKind} {pcr : UInt8} {bytes : ByteArray}
    {description : String} {alg : Algorithm} (h : tpm.Balanced)
    (happly : tpm.applyAll (record.entries kind pcr bytes description alg) = .ok after) :
    after.Balanced ∧
      after.eventLog = tpm.eventLog ++ [record.event kind pcr bytes description alg] := by
  cases kind with
  | informational =>
    cases happly
    exact ⟨h.informational rfl, rfl⟩
  | extend =>
    obtain ⟨next, hnext, hlogged⟩ := exists_ok_of_bind happly
    obtain ⟨old, value, pcrs, -, hold, hvalue, hpcrs, rfl⟩ := extend_eq_ok_iff.mp hnext
    cases hlogged
    exact ⟨h.extension rfl hold hvalue hpcrs rfl, rfl⟩

/-- A measurement in several banks. -/
theorem measure {record : MeasuredData} {kind : EventKind} {pcr : UInt8} {bytes : ByteArray}
    {description : String} {algs : List Algorithm} (h : tpm.Balanced)
    (happly : tpm.applyAll (algs.flatMap (record.entries kind pcr bytes description)) = .ok after) :
    after.Balanced ∧
      after.eventLog = tpm.eventLog ++ algs.map (record.event kind pcr bytes description) := by
  induction algs generalizing tpm with
  | nil =>
    cases happly
    exact ⟨h, (List.append_nil _).symm⟩
  | cons alg rest ih =>
    rw [List.flatMap_cons, applyAll_append] at happly
    obtain ⟨next, hnext, hrest⟩ := exists_ok_of_bind happly
    obtain ⟨hbalanced, hlog⟩ := h.entries hnext
    obtain ⟨hbalanced', hlog'⟩ := ih hbalanced hrest
    refine ⟨hbalanced', ?_⟩
    rw [hlog', hlog, List.append_assoc]
    rfl

end Balanced

/-! ## The books -/

/-- The books of a module that measured some artifacts: it is balanced, every event can be checked
against the artifacts, and in all banks the same actions extended a PCR in the same order. -/
structure Booked (as : Artifacts) (tpm : Tpm) : Prop where
  balanced : tpm.Balanced
  backed : ∀ e ∈ tpm.eventLog, e.Backed as
  uniform : ∀ pcr, ∀ alg ∈ tpm.algorithms, ∀ other ∈ tpm.algorithms,
    (tpm.extensions pcr alg).map Event.cause? = (tpm.extensions pcr other).map Event.cause?

namespace Booked

variable {as : Artifacts} {tpm after : Tpm}

theorem of_algorithms {algs : List Algorithm} (h : algs.Sublist Algorithm.hashes) :
    Booked as { algorithms := algs } where
  balanced := Balanced.of_algorithms h
  backed _ hmem := nomatch hmem
  uniform _ _ _ _ _ := rfl

/-- The books are not about the command log, nor about whether the module is closed. -/
theorem relog (h : tpm.Booked as) (log : List LoggedCommand) (finished : Bool) :
    Booked as { tpm with commandLog := log, finished } where
  balanced := h.balanced.relog log finished
  backed := h.backed
  uniform := h.uniform

theorem finish (h : tpm.Booked as) : tpm.finish.Booked as := h.relog tpm.commandLog true

theorem start {locality : UInt8} (h : tpm.Booked as) (hstart : tpm.start locality = .ok after) :
    after.Booked as := by
  have hbalanced := h.balanced.start hstart
  obtain ⟨-, _, -, rfl⟩ := start_eq_ok_iff.mp hstart
  exact ⟨hbalanced, h.backed, h.uniform⟩

theorem initLazy (h : tpm.Booked as) (locality : UInt8) (cause : Coordinates) :
    (tpm.initLazy locality cause).1.Booked as := by
  obtain hsame | ⟨started, hstart, htaken⟩ := initLazy_started tpm locality cause
  · rw [hsame]
    exact h
  · rw [htaken]
    exact (h.start hstart).relog _ _

/-- A measurement keeps the books, if what it measures are bytes of the artifacts. -/
theorem measure {record : MeasuredData} {kind : EventKind} {pcr : UInt8} {bytes : ByteArray}
    {description : String} (h : tpm.Booked as) (hbytes : record.data.bytes as = .ok bytes)
    (happly : tpm.applyAll (tpm.algorithms.flatMap (record.entries kind pcr bytes description)) =
      .ok after) : after.Booked as := by
  have hbanks := (follows_of_applyAll happly).algorithms_eq
  obtain ⟨hbalanced, hlog⟩ := h.balanced.measure happly
  refine ⟨hbalanced, fun e hmem => ?_, fun other alg halg alg' halg' => ?_⟩
  · rw [hlog, List.mem_append, List.mem_map] at hmem
    obtain hmem | ⟨alg, halg, rfl⟩ := hmem
    · exact h.backed e hmem
    · have hhash := h.balanced.isHash alg halg
      exact ⟨record, bytes, rfl, hbytes,
        record.hash_eq_digest_event kind pcr bytes description hhash⟩
  · rw [hbanks] at halg halg'
    -- every bank occurs once, so that each has one more extension or none
    rw [extensions_append hlog, extensions_append hlog, List.map_append, List.map_append,
      record.causes_events, record.causes_events, h.uniform other alg halg alg' halg',
      List.count_eq_one_of_mem h.balanced.nodup halg, List.count_eq_one_of_mem h.balanced.nodup halg']

end Booked

/-- A module that was just built, by default or with a choice of banks. -/
def IsNew (algs : List Algorithm) (tpm : Tpm) : Prop :=
  (tpm = fresh ∧ algs = defaultAlgorithms) ∨ withAlgorithms algs = .ok tpm

theorem IsNew.withAlgorithms {algs : List Algorithm} {tpm : Tpm} (h : IsNew algs tpm) :
    withAlgorithms algs = .ok tpm := by
  obtain ⟨rfl, rfl⟩ | h := h
  · rfl
  · exact h

theorem IsNew.booked {algs : List Algorithm} {tpm : Tpm} (h : IsNew algs tpm) (as : Artifacts) :
    tpm.Booked as := by
  obtain ⟨-, rfl⟩ := of_withAlgorithms h.withAlgorithms
  exact Booked.of_algorithms List.filter_sublist

end Tpm

end MeasuredBoot
