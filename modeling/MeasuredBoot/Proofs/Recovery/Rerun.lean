import MeasuredBoot.Proofs.Recovery.Nearest
import MeasuredBoot.Proofs.Run.Mirror

/-!
# Rerunning with another value of a register

A recovery replaces the bytes of a register in one place of one payload. A rerun of the machine with the
register set measures the register wherever its flow does.

* `Machine.setRegister`: the machine with a register set;
* `Measurement.Logs.repeats`, `PcrReplay.repeats_of_logs`: the digests of the events that a rerun logs;
* `PcrReplay.rerun_of_ofMachine`: a rerun finishes, and its PCR value is that of the replay with the
  value, if the measurements have the register once;
* `PcrReplay.rerun_recover`: what that says of a recovered value;
* `PcrReplay.RerunsAsExpected`: what cannot be said of every machine (`PcrReplay.not_rerunsAsExpected`).
-/

namespace MeasuredBoot

/-! ## Setting a register -/

namespace Artifacts

/-- The artifacts with a register of the snapshot set. -/
def setRegister (as : Artifacts) (id : Register) (value : UInt64) : Artifacts :=
  { as with snapshot := as.snapshot.map (·.set id value) }

variable {as : Artifacts} {rs : Registers} {id : Register}

theorem alike_setRegister (hsnapshot : as.snapshot = some rs) (hpresent : (rs.get? id).isSome = true)
    (value : UInt64) : as.Alike (as.setRegister id value) where
  image_eq := rfl
  present_eq := by
    rw [setRegister, hsnapshot, Option.map_some, Option.map_some, Option.map_some]
    congr 1
    funext other
    by_cases h : other = id
    · subst h
      rw [Registers.present, Registers.present, hpresent, Registers.set, Registers.get?_put_self]
      rfl
    · rw [Registers.present, Registers.present, Registers.set, Registers.get?_put_of_ne _ _ h]

theorem contentOf_registers (hsnapshot : as.snapshot = some rs) : as.contentOf .registers = rs.layout := by
  rw [contentOf, find?, hsnapshot]
  rfl

theorem differ_setRegister (hsnapshot : as.snapshot = some rs) (hfits : rs.Fits id) (value : UInt64) :
    Differ id (Bytes.ofWord value.toNat id.width) as (as.setRegister id value) where
  image := rfl
  registers := by
    have hset : (as.setRegister id value).snapshot = some (rs.set id value) := by
      rw [setRegister, hsnapshot]
      rfl
    rw [contentOf_registers hsnapshot, contentOf_registers hset, Registers.layout_set hfits]
  size_eq := Bytes.size_ofWord ..
  size_le := by
    rw [contentOf_registers hsnapshot, Registers.size_layout]
    cases id <;> decide

end Artifacts

/-- The machine with a register of the snapshot set. -/
def Machine.setRegister (m : Machine) (id : Register) (value : UInt64) : Machine :=
  { m with artifacts := m.artifacts.setRegister id value }

theorem Tpm.IsNew.mirrors {algs : List Algorithm} {tpm : Tpm} (h : tpm.IsNew algs) : tpm.Mirrors tpm := by
  obtain ⟨-, rfl⟩ := of_withAlgorithms h.withAlgorithms
  refine ⟨fun alg hmem => ?_, rfl, rfl, rfl, fun _ _ => rfl, rfl, fun e he => ?_⟩
  · exact alg.mem_hashes_iff.mp (List.mem_of_mem_filter hmem)
  · cases he

/-! ## Payloads and digests -/

namespace Measurement

/-- In how many extents the payload has bytes of a register. -/
def mentions (m : Measurement) (id : Register) : Nat :=
  m.extents.countP fun e : Extent => e.mentions id.range

variable {as other : Artifacts} {event event' : Event} {m : Measurement} {id : Register}
  {patch : ByteArray}

theorem mentions_eq_zero_of_mem {ms : List Measurement}
    (hzero : (ms.flatMap (·.extents)).countP (fun e : Extent => e.mentions id.range) = 0) (hm : m ∈ ms) :
    m.mentions id = 0 :=
  List.countP_eq_zero.mpr fun e he =>
    List.countP_eq_zero.mp hzero e (List.mem_flatMap.mpr ⟨m, hm, he⟩)

theorem Logs.mentions_pos (h : m.Logs as event) {offset : Nat} (hoffset : m.offsetOf? id = some offset) :
    0 < m.mentions id := by
  obtain ⟨e, he, hk, hc⟩ := exists_of_offsetFrom? hoffset
  obtain hnone | ⟨hall, -⟩ := h.of_references
  · rw [extents, hnone] at he
    cases he
  · exact List.countP_pos_iff.mpr ⟨e, he, Artifacts.mentions_of_contains (hall e he) hk hc⟩

/-- The payload of a measurement of the same data, not converted, of artifacts that differ in a
register. -/
theorem Logs.exists_payload {record : MeasuredData} (h : m.Logs as event)
    (hrecord : event.measured = some record) (hplain : record.data.converter = none)
    (halike : as.Alike other) (hdiffer : Artifacts.Differ id patch as other) :
    ∃ payload, record.data.bytes other = .ok payload ∧
      (m.mentions id = 0 → payload = m.payload) ∧
      ∀ offset, m.mentions id = 1 → m.offsetOf? id = some offset →
        payload = Bytes.splice m.payload offset patch := by
  obtain ⟨record', hsame, -, hbytes, hnative⟩ := h
  obtain rfl : record = record' := Option.some.inj (hrecord.symm.trans hsame)
  obtain ⟨⟨content, converter⟩, source, actor, chain⟩ := record
  obtain rfl : converter = none := hplain
  cases content with
  | forced bytes =>
    have hnone : m.references = [] := (Except.ok.inj hnative).symm
    refine ⟨m.payload, hbytes, fun _ => rfl, fun offset hone => ?_⟩
    rw [mentions, extents, hnone] at hone
    cases hone
  | references refs =>
    obtain ⟨raw, hraw, hpure⟩ := exists_ok_of_bind hbytes
    obtain rfl : raw = m.payload := Except.ok.inj hpure
    obtain ⟨native, hresolve, hall, hpayload⟩ := References.bytes_eq_ok_iff.mp hraw
    obtain rfl : native = m.references := Except.ok.inj (hresolve.symm.trans hnative)
    have hother := References.bytes_of_resolve halike.sameSizes hresolve hall
    refine ⟨other.bytesAt m.extents, bind_eq_ok_iff.mpr ⟨_, hother, rfl⟩, fun hzero => ?_,
      fun offset hone hoffset => ?_⟩
    · rw [hpayload]
      exact hdiffer.bytesAt_of_no_mention hall hzero
    · rw [hpayload]
      exact hdiffer.bytesAt_of_one_mention hall hone hoffset

/-- The event has the digest of a measurement in which a register has other bytes, unless the register
is in several places. -/
def Repeats (alg : Algorithm) (id : Register) (patch : ByteArray) (event : Event) (m : Measurement) : Prop :=
  (m.mentions id = 0 → event.digest = m.digest) ∧
    ∀ offset, m.mentions id = 1 → m.offsetOf? id = some offset →
      event.digest = (m.withBytes alg offset patch).digest

theorem Logs.repeats (h : m.Logs as event) (hbacked : event.Backed as) (hbacked' : event'.Backed other)
    (hblank : event.blank = event'.blank)
    (hplain : ∀ record, event.measured = some record → record.data.converter = none)
    (halike : as.Alike other) (hdiffer : Artifacts.Differ id patch as other) :
    m.Repeats event.alg id patch event' := by
  obtain ⟨halg, hmeasured⟩ := Event.of_blank_eq hblank
  obtain ⟨record, bytes, hrecord, hbytes, hhash⟩ := hbacked
  obtain ⟨record', bytes', hrecord', hbytes', hhash'⟩ := hbacked'
  obtain rfl : record = record' := Option.some.inj ((hrecord.symm.trans hmeasured).trans hrecord')
  obtain ⟨payload, hpayload, hzero, hone⟩ :=
    h.exists_payload hrecord (hplain record hrecord) halike hdiffer
  obtain ⟨_, hsame, hdigest, hread, -⟩ := h
  obtain rfl := Option.some.inj (hrecord.symm.trans hsame)
  obtain rfl : bytes = m.payload := Except.ok.inj (hbytes.symm.trans hread)
  obtain rfl : payload = bytes' := Except.ok.inj (hpayload.symm.trans hbytes')
  rw [← halg] at hhash'
  refine ⟨fun h => ?_, fun offset h hoffset => ?_⟩
  · rw [hzero h] at hhash'
    exact (Except.ok.inj (hhash'.symm.trans hhash)).trans hdigest.symm
  · rw [hone offset h hoffset] at hhash'
    rw [withBytes, Algorithm.digest?_of_hash hhash']
    rfl

end Measurement

namespace PcrReplay

/-! ## Digests of a replay -/

/-- In how many extents the measurements have bytes of a register. -/
def mentions (replay : PcrReplay) (id : Register) : Nat :=
  (replay.measurements.flatMap (·.extents)).countP fun e : Extent => e.mentions id.range

section

variable {as other : Artifacts} {alg : Algorithm} {id : Register} {patch : ByteArray}

/-- Events that are those of some measurements apart from the digests. -/
theorem repeats_of_logs {events events' : List Event} {ms : List Measurement}
    (hlogs : List.Forall₂ (fun event m => m.Logs as event) events ms)
    (hblank : events.map Event.blank = events'.map Event.blank)
    (hevents : ∀ e ∈ events, e.alg = alg ∧ e.Backed as ∧
      ∀ record, e.measured = some record → record.data.converter = none)
    (hevents' : ∀ e ∈ events', e.Backed other)
    (halike : as.Alike other) (hdiffer : Artifacts.Differ id patch as other) :
    List.Forall₂ (fun event m => m.Repeats alg id patch event) events' ms := by
  induction hlogs generalizing events' with
  | nil =>
    obtain rfl := List.map_eq_nil_iff.mp hblank.symm
    exact .nil
  | @cons event m rest ms hlog _ ih =>
    obtain ⟨event', rest', rfl, hhead, htail⟩ := List.map_eq_cons_iff.mp hblank.symm
    obtain ⟨⟨rfl, hbacked, hplain⟩, hrest⟩ := List.forall_mem_cons.mp hevents
    obtain ⟨hbacked', hrest'⟩ := List.forall_mem_cons.mp hevents'
    exact .cons (hlog.repeats hbacked hbacked' hhead.symm hplain halike hdiffer)
      (ih htail.symm hrest hrest')

/-- The extensions of a module that mirrors another one, after measurements of artifacts that differ in a
register. -/
theorem repeats_of_mirrors {tpm tpm' : Tpm} {pcr : UInt8} {ms : List Measurement}
    (hlogs : List.Forall₂ (fun event m => m.Logs as event) (tpm.extensions pcr alg) ms)
    (hmirrors : tpm.Mirrors tpm') (hbooked : tpm.Booked as) (hbooked' : tpm'.Booked other)
    (halike : as.Alike other) (hdiffer : Artifacts.Differ id patch as other) :
    List.Forall₂ (fun event m => m.Repeats alg id patch event) (tpm'.extensions pcr alg) ms := by
  refine repeats_of_logs hlogs ?_ (fun e he => ?_) (fun e he => ?_) halike hdiffer
  · rw [Tpm.extensions_map_blank, Tpm.extensions_map_blank, hmirrors.events]
  · obtain ⟨hlog, hext⟩ := List.mem_filter.mp he
    exact ⟨(Event.isExtension_iff.mp hext).2.1, hbooked.backed e hlog, hmirrors.plain e hlog⟩
  · exact hbooked'.backed e (List.mem_of_mem_filter he)

theorem digests_of_no_mention {events : List Event} {ms : List Measurement}
    (h : List.Forall₂ (fun event m => m.Repeats alg id patch event) events ms)
    (hzero : ∀ m ∈ ms, m.mentions id = 0) : events.map (·.digest) = digests ms := by
  induction h with
  | nil => rfl
  | cons hrepeats _ ih =>
    obtain ⟨hhead, htail⟩ := List.forall_mem_cons.mp hzero
    rw [List.map_cons, hrepeats.1 hhead, ih htail]
    rfl

/-- If the measurements have a register once, they have it in one measurement alone. -/
theorem Locates.mentions_of_once {replay : PcrReplay} {location : RegisterLocation}
    {before after : List Measurement} {m : Measurement} (h : replay.Locates location before m after)
    (hpos : 0 < m.mentions location.id) (honce : replay.mentions location.id = 1) :
    (∀ other ∈ before, other.mentions location.id = 0) ∧ m.mentions location.id = 1 ∧
      ∀ other ∈ after, other.mentions location.id = 0 := by
  rw [mentions, h.measurements_eq, List.flatMap_append, List.flatMap_cons, List.countP_append,
    List.countP_append] at honce
  rw [Measurement.mentions] at hpos ⊢
  exact ⟨fun _ => Measurement.mentions_eq_zero_of_mem (by omega), by omega,
    fun _ => Measurement.mentions_eq_zero_of_mem (by omega)⟩

/-- If the measurements have the register once, the digests are those of the replay with other bytes at
the location. -/
theorem Locates.digests_of_repeats {replay : PcrReplay} {location : RegisterLocation}
    {before after : List Measurement} {m : Measurement} {value : Nat} {events : List Event}
    (h : replay.Locates location before m after) (hpos : 0 < m.mentions location.id)
    (hmentions : replay.mentions location.id = 1)
    (hevents : List.Forall₂
      (fun event m => m.Repeats replay.alg location.id (Bytes.ofWord value location.id.width) event)
      events replay.measurements) :
    events.map (·.digest) = digests (replay.withValue location value).measurements := by
  obtain ⟨hzero, hone, hzero'⟩ := h.mentions_of_once hpos hmentions
  rw [h.measurements_eq] at hevents
  have hbefore := List.forall₂_take_append _ _ _ hevents
  obtain ⟨event, rest, hrepeats, hafter, hdrop⟩ :=
    List.forall₂_cons_right_iff.mp (List.forall₂_drop_append _ _ _ hevents)
  rw [h.measurements_withValue, ← List.take_append_drop before.length events, hdrop, List.map_append,
    List.map_cons, digests_of_no_mention hbefore hzero, digests_of_no_mention hafter hzero',
    hrepeats.2 location.offset hone h.offset_eq, ← h.width_eq, digests, digests, digests,
    List.map_append, List.map_cons]

end

end PcrReplay

/-! ## The rerun -/

namespace Run

section

variable {algs : List Algorithm} {built : Tpm} {machine : Machine} {rs : Registers} {id : Register}

theorem mirrors_setRegister (hnew : built.IsNew algs) (hmachine : machine.tpm = some built)
    (hsnapshot : machine.artifacts.snapshot = some rs) (hpresent : (rs.get? id).isSome = true)
    (value : UInt64) : (ofMachine machine).Mirrors (ofMachine (machine.setRegister id value)) where
  machine := ⟨Artifacts.alike_setRegister hsnapshot hpresent value, rfl, built, built, hmachine,
    hmachine, hnew.mirrors⟩
  flowIndex_eq := rfl
  stepIndex_eq := rfl
  status_eq := rfl

theorem booked_finish (hnew : built.IsNew algs) (hmachine : machine.tpm = some built) :
    (ofMachine machine).finish.machine.Booked machine.artifacts built.algorithms :=
  (Machine.kept_booked _ _).reaches (Reaches.finish .start) ⟨rfl, built, hmachine, rfl, hnew.booked _⟩

end

end Run

namespace PcrReplay

section

variable {algs : List Algorithm} {built : Tpm} {machine : Machine} {rs : Registers} {pcr : UInt8}
  {alg : Algorithm} {replay : PcrReplay} {id : Register} {location : RegisterLocation}

/-- Of a machine with a new module: if the run finishes, so does that with another value of a register.
Its PCR value is that of the replay with the value at the location, if the measurements have the register
there only. -/
theorem rerun_of_ofMachine (hnew : built.IsNew algs) (hmachine : machine.tpm = some built)
    (hfinished : (Run.ofMachine machine).finish.status = .finished)
    (hsnapshot : machine.artifacts.snapshot = some rs) (hpresent : (rs.get? id).isSome = true)
    (hpcr : pcr.toNat < Tpm.pcrCount) (halg : alg ∈ algs)
    (hreplay : ofMachine (Run.ofMachine machine).finish.machine pcr alg = .ok replay)
    (hlocation : replay.locate? id = some location) (value : UInt64) :
    (Run.ofMachine (machine.setRegister id value)).finish.status = .finished ∧
    ∃ tpm result, (Run.ofMachine (machine.setRegister id value)).finish.machine.tpm = some tpm ∧
      tpm.pcrValue pcr alg = .ok result ∧
      (rs.Fits id → replay.mentions id = 1 →
        (replay.withValue location value.toNat).finalValue = .ok result) := by
  have hmirrors := (Run.mirrors_setRegister hnew hmachine hsnapshot hpresent value).finish hfinished
  obtain ⟨has, tpm, htpm, -, hbook⟩ := Run.booked_finish hnew hmachine
  obtain ⟨-, tpm', htpm', halgs', hbook'⟩ :=
    Run.booked_finish hnew (show (machine.setRegister id value).tpm = some built from hmachine)
  obtain ⟨_, _, hsame, hsame', htpms⟩ := hmirrors.machine.tpm
  obtain rfl := Option.some.inj (htpm.symm.trans hsame)
  obtain rfl := Option.some.inj (htpm'.symm.trans hsame')
  obtain ⟨_, locality, hsame, hlocality, hinitial, -, rfl, hlogs⟩ := ofMachine_eq_ok_iff.mp hreplay
  obtain rfl := Option.some.inj (htpm.symm.trans hsame)
  have hmem : replay.alg ∈ tpm'.algorithms :=
    halgs' ▸ (Tpm.mem_algorithms_iff hnew.withAlgorithms _).mpr halg
  obtain ⟨initial, result, hinitial', hall, hresult⟩ :=
    hbook'.balanced.accounts locality (htpms.locality_eq ▸ hlocality) pcr replay.alg hpcr hmem
  obtain rfl : initial = replay.initial := Except.ok.inj (hinitial'.symm.trans hinitial)
  refine ⟨hmirrors.status_eq ▸ hfinished, tpm', result, htpm', hresult, fun hfits hmentions => ?_⟩
  -- the rerun logs the same events, so its digests are those of the replay with the value
  obtain ⟨rfl, before, m, after, h, -⟩ := locates_of_ofMachine hreplay hlocation
  rw [has] at hlogs
  have hrepeats := repeats_of_mirrors hlogs htpms hbook hbook'
    (Artifacts.alike_setRegister hsnapshot hpresent value)
    (Artifacts.differ_setRegister hsnapshot hfits value)
  have hm : m ∈ replay.measurements := by
    rw [h.measurements_eq]
    exact List.mem_append_right before List.mem_cons_self
  obtain ⟨event, -, hlog⟩ := exists_logs_of_mem hlogs hm
  rw [finalValue, ← h.digests_of_repeats (hlog.mentions_pos h.offset_eq) hmentions hrepeats,
    mapError_eq_ok_iff]
  exact hall

/-- Of a machine with a new module, whose run finishes and in whose snapshot the register is present: the
rerun with a recovered value finishes and has a PCR value, and this is the expected one, if the register
is within its width and the measurements have it once. -/
theorem rerun_recover {force : Workforce} {expected : ByteArray} {maxDistance : Nat}
    {r : RecoveredRegister} (hnew : built.IsNew algs) (hmachine : machine.tpm = some built)
    (hfinished : (Run.ofMachine machine).finish.status = .finished)
    (hsnapshot : machine.artifacts.snapshot = some rs) (hpresent : (rs.get? id).isSome = true)
    (hpcr : pcr.toNat < Tpm.pcrCount) (halg : alg ∈ algs)
    (hreplay : ofMachine (Run.ofMachine machine).finish.machine pcr alg = .ok replay)
    (hlocation : replay.locate? id = some location)
    (hrecover : replay.recover force location expected maxDistance = .ok (some r)) :
    let rerun := (Run.ofMachine (machine.setRegister id r.recovered.toUInt64)).finish
    rerun.status = .finished ∧ ∃ tpm result, rerun.machine.tpm = some tpm ∧
      tpm.pcrValue pcr alg = .ok result ∧
      (rs.Fits id → replay.mentions id = 1 → result = expected) := by
  intro rerun
  obtain ⟨hdone, tpm, result, htpm, hresult, hfinal⟩ := rerun_of_ofMachine hnew hmachine hfinished
    hsnapshot hpresent hpcr halg hreplay hlocation r.recovered.toUInt64
  refine ⟨hdone, tpm, result, htpm, hresult, fun hfits hmentions => ?_⟩
  obtain ⟨outcome, houtcome, hspec, -⟩ :=
    recover_of_ofMachine hreplay hlocation (size_of_recover hrecover) force maxDistance
  obtain rfl : outcome = some r := Except.ok.inj (houtcome.symm.trans hrecover)
  obtain ⟨-, -, -, -, ⟨hlt, hexplains⟩, -⟩ := hspec
  have hvalue : r.recovered.toUInt64.toNat = r.recovered := by
    obtain ⟨rfl, _, _, _, h, -⟩ := locates_of_ofMachine hreplay hlocation
    refine UInt64.toNat_ofNat_of_lt' (hlt.trans_le ?_)
    rw [h.width_eq]
    cases location.id <;> decide
  -- both are the final value of the replay with the recovered value
  rw [← hvalue, hfinal hfits hmentions] at hexplains
  exact Except.ok.inj hexplains

end

/-- The value that is found for the register makes the rerun end in the expected PCR value. -/
theorem rerun_recover_measuresRegister :
    let run := (Run.ofMachine measuresRegister).finish
    run.status = .finished ∧ ∃ replay location expected r tpm,
      ofMachine run.machine 0 .sha1 = .ok replay ∧ replay.locate? .txtErrorCode = some location ∧
      replay.recover {} location expected 2 = .ok (some r) ∧ r.measured = 5 ∧
      (Run.ofMachine (measuresRegister.setRegister .txtErrorCode r.recovered.toUInt64)).finish.machine.tpm =
        some tpm ∧ tpm.pcrValue 0 .sha1 = .ok expected := by
  intro run
  have hrun : run = (Run.ofMachine measuresRegister).stepped 3 :=
    Run.finish_eq_stepped (by decide +kernel)
  have hfinished : run.status = .finished := by
    rw [hrun]
    decide +kernel
  let replay := (ofMachine ((Run.ofMachine measuresRegister).stepped 3).machine 0 .sha1).toOption.get
    (by decide +kernel)
  let location : RegisterLocation := ⟨.txtErrorCode, 0, 0, 4⟩
  let expected := (replay.withValue location 0x1004).finalValue.toOption.get (by decide +kernel)
  have hreplay : ofMachine run.machine 0 .sha1 = .ok replay := by
    rw [hrun]
    exact eq_ok_toOption_get _
  have hlocation : replay.locate? .txtErrorCode = some location := by decide +kernel
  have hexplains : replay.Explains location expected 0x1004 := ⟨by decide, eq_ok_toOption_get _⟩
  obtain ⟨r, hrecover, ⟨-, hmeasured, -⟩, -⟩ := exists_recover hreplay hlocation
    (by decide +kernel) hexplains (show _ ≤ 2 by decide +kernel) {}
  obtain ⟨-, tpm, result, htpm, hresult, hexpected⟩ := rerun_recover (.inl ⟨rfl, rfl⟩) rfl hfinished rfl
    (by decide) (by decide) (by decide) hreplay hlocation hrecover
  obtain rfl := hexpected (by decide) (by decide +kernel)
  exact ⟨hfinished, replay, location, _, r, tpm, hreplay, hlocation, hrecover,
    hmeasured.trans (by decide +kernel), htpm, hresult⟩

/-! ## Registers that are in two places, absent or too wide -/

/-- Whatever is found for a register makes the rerun end in the expected PCR value. -/
def RerunsAsExpected (machine : Machine) (pcr : UInt8) (alg : Algorithm) (id : Register) : Prop :=
  ∀ replay location force expected maxDistance r,
    ofMachine (Run.ofMachine machine).finish.machine pcr alg = .ok replay →
    replay.locate? id = some location →
    replay.recover force location expected maxDistance = .ok (some r) →
    let rerun := (Run.ofMachine (machine.setRegister id r.recovered.toUInt64)).finish
    rerun.status = .finished ∧ ∃ tpm, rerun.machine.tpm = some tpm ∧ tpm.pcrValue pcr alg = .ok expected

/-- What it says of a rerun that is over after some steps. -/
theorem RerunsAsExpected.stepped {machine : Machine} {pcr : UInt8} {alg : Algorithm} {replay : PcrReplay}
    {id : Register} {location : RegisterLocation} {force : Workforce} {expected : ByteArray}
    {maxDistance : Nat} {r : RecoveredRegister} (h : RerunsAsExpected machine pcr alg id)
    (hreplay : ofMachine (Run.ofMachine machine).finish.machine pcr alg = .ok replay)
    (hlocation : replay.locate? id = some location)
    (hrecover : replay.recover force location expected maxDistance = .ok (some r)) (value : UInt64)
    (hvalue : r.recovered.toUInt64 = value) (n : Nat)
    (hover : ((Run.ofMachine (machine.setRegister id value)).stepped n).status.isTerminal = true) :
    let rerun := (Run.ofMachine (machine.setRegister id value)).stepped n
    rerun.status = .finished ∧ rerun.machine.tpm.map (·.pcrValue pcr alg) = some (.ok expected) := by
  intro rerun
  obtain ⟨hdone, tpm, htpm, hresult⟩ := h replay location force expected maxDistance r hreplay hlocation hrecover
  rw [hvalue, Run.finish_eq_stepped hover] at hdone htpm
  refine ⟨hdone, ?_⟩
  rw [htpm, Option.map_some, hresult]

/-- A machine that measures a payload with the register in two places. -/
def measuresTwice : Machine :=
  { artifacts := { snapshot := some { txtErrorCode := some 0 } }
    tpm := some Tpm.fresh
    flow := some (.mk "twice" [
      .static [.initTpm 3],
      .static [.extend 0 (.references [
        ⟨⟨.registers, none⟩, [Register.txtErrorCode.range]⟩,
        ⟨⟨.registers, none⟩, [Register.txtErrorCode.range]⟩])]]) }

/-- A machine that measures the register, which is absent, and does not boot if it is present. -/
def measuresAbsent : Machine :=
  { artifacts := { snapshot := some {} }
    tpm := some Tpm.fresh
    flow := some (.mk "absent" [
      .static [.initTpm 3],
      .static [.extend 0 (.references [⟨⟨.registers, none⟩, [Register.txtErrorCode.range]⟩])],
      .guarded (.registerPresent .txtErrorCode) (.static [.panic "unexpected register"])]) }

/-- A machine that measures the slot of a register, which holds more bytes than the register is wide. -/
def measuresWide : Machine :=
  { artifacts := { snapshot := some { txtErrorCode := some 0x100000000 } }
    tpm := some Tpm.fresh
    flow := some (.mk "wide" [
      .static [.initTpm 3],
      .static [.extend 0 (.references [⟨⟨.registers, none⟩, [⟨16, 8⟩]⟩])]]) }

/-- What was measured is found if it explains the expected value. -/
theorem exists_recover_measured {machine : Machine} {pcr : UInt8} {alg : Algorithm} {replay : PcrReplay}
    {id : Register} {location : RegisterLocation} {expected : ByteArray} {value : Nat}
    (hreplay : ofMachine machine pcr alg = .ok replay) (hlocation : replay.locate? id = some location)
    (hmeasured : replay.measuredAt location = value)
    (hsize : replay.alg.digestSize? = some expected.size)
    (hexplains : replay.Explains location expected value) :
    ∃ r, replay.recover {} location expected 0 = .ok (some r) ∧ r.recovered = value := by
  have hdistance : replay.distanceAt location value ≤ 0 := by
    rw [distanceAt, hmeasured, Bytes.wordDistance_self]
  obtain ⟨r, hrecover, ⟨-, hr, hrecovered, hlength, -, hle, -⟩, -⟩ :=
    exists_recover hreplay hlocation hsize hexplains hdistance {}
  have hflips : r.flips = [] := List.eq_nil_of_length_eq_zero (Nat.le_zero.mp (hlength ▸ hle))
  rw [hr, hmeasured, hflips] at hrecovered
  exact ⟨r, hrecover, hrecovered.trans (Nat.xor_zero value)⟩

/-- Where four bytes of zeros were measured, the value 1 is found if it explains the expected one and zero
does not. -/
theorem exists_recover_one {machine : Machine} {pcr : UInt8} {alg : Algorithm} {replay : PcrReplay}
    {id : Register} {location : RegisterLocation} {expected : ByteArray}
    (hreplay : ofMachine machine pcr alg = .ok replay) (hlocation : replay.locate? id = some location)
    (hwidth : location.width = 4) (hmeasured : replay.measuredAt location = 0)
    (hsize : replay.alg.digestSize? = some expected.size)
    (hexplains : replay.Explains location expected 1) (hno : ¬replay.Explains location expected 0) :
    ∃ r, replay.recover {} location expected 1 = .ok (some r) ∧ r.recovered = 1 := by
  have hone : ∀ d count, Workforce.workerCount {} d count = 1 := by
    intro d count
    have hbusy : (1 : Nat) - 0 = 1 := rfl
    simp only [Workforce.workerCount, hbusy, Nat.lt_irrefl, if_false]
    omega
  have hdistance : replay.distanceAt location 1 ≤ 1 := by
    rw [distanceAt, hmeasured, hwidth]
    decide
  obtain ⟨r, hrecover, ⟨-, hr, hrecovered, hlength, hfound, hle, -⟩, hleast⟩ :=
    exists_recover hreplay hlocation hsize hexplains hdistance {}
  rw [hr, hmeasured, Nat.zero_xor] at hrecovered
  refine ⟨r, hrecover, ?_⟩
  rw [hlength] at hle
  obtain hnil | ⟨k, hk⟩ : r.flips = [] ∨ ∃ k, r.flips = [k] := by
    obtain hzero | hlt := Nat.eq_zero_or_pos r.flips.length
    · exact .inl (List.eq_nil_of_length_eq_zero hzero)
    · exact .inr (List.length_eq_one_iff.mp (Nat.le_antisymm hle hlt))
  · rw [hrecovered, hnil] at hfound
    exact absurd hfound hno
  · -- bit 0 has the least number
    have hnumber := hleast hone [0]
      (by rw [hk, hwidth]; exact ⟨by decide, rfl, by decide⟩) (by rw [hmeasured]; exact hexplains)
    rw [hk] at hnumber hrecovered
    simp only [Combination.weight, Nat.zero_add, Nat.choose_one_right] at hnumber
    obtain rfl : k = 0 := by omega
    exact hrecovered

theorem not_rerunsAsExpected_measuresTwice :
    (Run.ofMachine measuresTwice).finish.status = .finished ∧
      ¬RerunsAsExpected measuresTwice 0 .sha1 .txtErrorCode := by
  have hrun : (Run.ofMachine measuresTwice).finish = (Run.ofMachine measuresTwice).stepped 3 :=
    Run.finish_eq_stepped (by decide +kernel)
  refine ⟨by rw [hrun]; decide +kernel, fun h => ?_⟩
  let replay := (ofMachine ((Run.ofMachine measuresTwice).stepped 3).machine 0 .sha1).toOption.get
    (by decide +kernel)
  let location : RegisterLocation := ⟨.txtErrorCode, 0, 0, 4⟩
  -- the PCR value with 1 in the first place and 0 in the second one
  let expected : ByteArray := ⟨#[
    0x53, 0x25, 0x80, 0x6f, 0x5e, 0x43, 0x86, 0x0c, 0xca, 0x11,
    0x98, 0x05, 0x81, 0xed, 0x9b, 0x38, 0xbf, 0x9d, 0x1f, 0x53]⟩
  have hreplay : ofMachine ((Run.ofMachine measuresTwice).stepped 3).machine 0 .sha1 = .ok replay :=
    eq_ok_toOption_get _
  have hlocation : replay.locate? .txtErrorCode = some location := by decide +kernel
  obtain ⟨r, hrecover, hr⟩ := exists_recover_one hreplay hlocation rfl (by decide +kernel)
    (show _ = some expected.size by decide +kernel) ⟨by decide, by decide +kernel⟩
    (fun hzero => absurd hzero.2 (by decide +kernel))
  obtain ⟨-, hresult⟩ :=
    h.stepped (hrun ▸ hreplay) hlocation hrecover 1 (by rw [hr]; rfl) 3 (by decide +kernel)
  exact absurd hresult (by decide +kernel)

theorem not_rerunsAsExpected_measuresAbsent :
    (Run.ofMachine measuresAbsent).finish.status = .finished ∧
      ¬RerunsAsExpected measuresAbsent 0 .sha1 .txtErrorCode := by
  have hrun : (Run.ofMachine measuresAbsent).finish = (Run.ofMachine measuresAbsent).stepped 4 :=
    Run.finish_eq_stepped (by decide +kernel)
  refine ⟨by rw [hrun]; decide +kernel, fun h => ?_⟩
  let replay := (ofMachine ((Run.ofMachine measuresAbsent).stepped 4).machine 0 .sha1).toOption.get
    (by decide +kernel)
  let location : RegisterLocation := ⟨.txtErrorCode, 0, 0, 4⟩
  let expected := (replay.withValue location 0).finalValue.toOption.get (by decide +kernel)
  have hreplay : ofMachine ((Run.ofMachine measuresAbsent).stepped 4).machine 0 .sha1 = .ok replay :=
    eq_ok_toOption_get _
  have hlocation : replay.locate? .txtErrorCode = some location := by decide +kernel
  have hmeasured : replay.measuredAt location = 0 := by decide +kernel
  have hexplains : replay.Explains location expected 0 := ⟨by decide, eq_ok_toOption_get _⟩
  obtain ⟨r, hrecover, hr⟩ :=
    exists_recover_measured hreplay hlocation hmeasured (by decide +kernel) hexplains
  obtain ⟨hdone, -⟩ :=
    h.stepped (hrun ▸ hreplay) hlocation hrecover 0 (by rw [hr]; rfl) 3 (by decide +kernel)
  exact absurd hdone (by decide +kernel)

theorem not_rerunsAsExpected_measuresWide :
    (Run.ofMachine measuresWide).finish.status = .finished ∧
      ¬RerunsAsExpected measuresWide 0 .sha1 .txtErrorCode := by
  have hrun : (Run.ofMachine measuresWide).finish = (Run.ofMachine measuresWide).stepped 3 :=
    Run.finish_eq_stepped (by decide +kernel)
  refine ⟨by rw [hrun]; decide +kernel, fun h => ?_⟩
  let replay := (ofMachine ((Run.ofMachine measuresWide).stepped 3).machine 0 .sha1).toOption.get
    (by decide +kernel)
  let location : RegisterLocation := ⟨.txtErrorCode, 0, 0, 4⟩
  let expected := (replay.withValue location 0).finalValue.toOption.get (by decide +kernel)
  have hreplay : ofMachine ((Run.ofMachine measuresWide).stepped 3).machine 0 .sha1 = .ok replay :=
    eq_ok_toOption_get _
  have hlocation : replay.locate? .txtErrorCode = some location := by decide +kernel
  have hmeasured : replay.measuredAt location = 0 := by decide +kernel
  have hexplains : replay.Explains location expected 0 := ⟨by decide, eq_ok_toOption_get _⟩
  obtain ⟨r, hrecover, hr⟩ :=
    exists_recover_measured hreplay hlocation hmeasured (by decide +kernel) hexplains
  obtain ⟨-, hresult⟩ :=
    h.stepped (hrun ▸ hreplay) hlocation hrecover 0 (by rw [hr]; rfl) 3 (by decide +kernel)
  exact absurd hresult (by decide +kernel)

/-- What is found for a register is not what makes the rerun end in the expected PCR value: a register
in two places is replaced in the first one alone, a register that was absent is present in the rerun,
and a register that held more than its width does not in the rerun. -/
theorem not_rerunsAsExpected :
    ((Run.ofMachine measuresTwice).finish.status = .finished ∧
      ¬RerunsAsExpected measuresTwice 0 .sha1 .txtErrorCode) ∧
    ((Run.ofMachine measuresAbsent).finish.status = .finished ∧
      ¬RerunsAsExpected measuresAbsent 0 .sha1 .txtErrorCode) ∧
    ((Run.ofMachine measuresWide).finish.status = .finished ∧
      ¬RerunsAsExpected measuresWide 0 .sha1 .txtErrorCode) :=
  ⟨not_rerunsAsExpected_measuresTwice, not_rerunsAsExpected_measuresAbsent,
    not_rerunsAsExpected_measuresWide⟩

end PcrReplay

end MeasuredBoot
