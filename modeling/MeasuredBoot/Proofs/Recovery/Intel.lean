import MeasuredBoot.Proofs.Firmware.TableImage
import MeasuredBoot.Proofs.Recovery.Rerun
import MeasuredBoot.Proofs.Run.Platforms

/-!
# Recovering the policy status of an Intel boot

The Intel flow measures the policy status register in front of a table of the image, and then parts of
the image (`Run.extensions_of_intel`). So its replay has the register once, and a recovery is exact:

* `PcrReplay.exists_replay_of_intel`: the location of the register, and that there is no other one;
* `PcrReplay.bootsTo_iff_explains`: a value explains a PCR value if the boot with it ends in that value;
* `PcrReplay.recover_policyStatus`: the recovery finds a nearest such value.
-/

namespace MeasuredBoot

/-! ## References to a register and to the image -/

theorem Reference.artifact_of_resolve {as : Artifacts} {r native : Reference}
    (h : r.resolve as = .ok native) : native.artifact = r.artifact := by
  obtain ⟨ranges, -, h⟩ := exists_ok_of_bind h
  cases h
  rfl

/-- References to the image come down to extents of the image. -/
theorem References.kind_of_resolve {as : Artifacts} {refs native : References}
    (h : refs.resolve as = .ok native) (himage : ∀ r ∈ refs, r.artifact = .biosImage) :
    ∀ e ∈ native.extents, e.1 = .biosImage := by
  replace h := mapM_eq_ok_iff.mp h
  induction h with
  | nil => nofun
  | @cons r r' refs native hr _ ih =>
    obtain ⟨hhead, hrest⟩ := List.forall_mem_cons.mp himage
    rw [References.extents_cons]
    refine List.forall_mem_append.mpr ⟨fun e he => ?_, ih hrest⟩
    obtain ⟨range, -, rfl⟩ := List.mem_map.mp he
    exact (Reference.artifact_of_resolve hr).trans hhead

/-- The reference to a register comes down to the range of the register. -/
theorem Register.extents_of_resolve {as : Artifacts} {id : Register} {refs native : References}
    (h : References.resolve (⟨⟨.registers, none⟩, [id.range]⟩ :: refs) as = .ok native) :
    ∃ rest, refs.resolve as = .ok rest ∧ native.extents = (.registers, id.range) :: rest.extents := by
  rw [References.resolve, List.mapM_cons] at h
  obtain ⟨r, hr, h⟩ := exists_ok_of_bind h
  obtain ⟨rest, hrest, h⟩ := exists_ok_of_bind h
  cases h
  obtain ⟨ranges, hranges, hr⟩ := exists_ok_of_bind hr
  cases hr
  obtain ⟨a, -, hranges⟩ := exists_ok_of_bind hranges
  have hsort : ranges = Ranges.sort [id.range] := (Except.ok.inj hranges).symm
  rw [Ranges.sort, List.mergeSort_singleton] at hsort
  rw [hsort]
  exact ⟨rest, hrest, References.extents_cons _ _⟩

/-- The event logs data of the given references. -/
def Event.Measures (e : Event) (refs : References) : Prop :=
  ∃ record, e.measured = some record ∧ record.data = .references refs

namespace Measurement

variable {m : Measurement} {id : Register} {es : List Extent}

theorem offsetOf?_of_extents (h : m.extents = (.registers, id.range) :: es) :
    m.offsetOf? id = some 0 := by
  have hcontains : id.range.contains id.range = true := by cases id <;> decide
  rw [offsetOf?, h, offsetFrom?_cons, if_pos ⟨rfl, hcontains⟩, Nat.sub_self]

/-- The range of a register in front of parts of the image. -/
theorem countP_mentions_eq_one (h : ∀ e ∈ es, e.1 = .biosImage) :
    ((.registers, id.range) :: es).countP (fun e : Extent => e.mentions id.range) = 1 := by
  have hself : Extent.mentions id.range (.registers, id.range) = true := by cases id <;> decide
  rw [List.countP_cons_of_pos hself, List.countP_eq_zero.mpr]
  intro e he
  rw [Extent.mentions, h e he]
  exact Bool.false_ne_true

theorem Logs.resolve_of_measures {as : Artifacts} {event : Event} {refs : References}
    (h : m.Logs as event) (hevent : event.Measures refs) : refs.resolve as = .ok m.references := by
  obtain ⟨record, hrecord, hdata⟩ := hevent
  obtain ⟨record', hsame, -, -, hnative⟩ := h
  obtain rfl : record = record' := Option.some.inj (hrecord.symm.trans hsame)
  rw [hdata] at hnative
  exact hnative

end Measurement

namespace PcrReplay

theorem locate?_of_cons {replay : PcrReplay} {m : Measurement} {ms : List Measurement} {id : Register}
    {offset : Nat} (h : replay.measurements = m :: ms) (hoffset : m.offsetOf? id = some offset) :
    replay.locate? id = some ⟨id, 0, offset, id.width⟩ := by
  rw [locate?, h, List.zipIdx_cons, List.findSome?_cons]
  dsimp only
  rw [hoffset]
  rfl

end PcrReplay

/-! ## What the probes find -/

namespace DataSource

variable {as : Artifacts} {data : Data} {bytes : ByteArray}

/-- The data of the first measurement starts with the policy status, which has to be present. -/
theorem policyStatus_of_fetch (h : fetch (.probe .pcr0Data) as = .ok (data, bytes)) :
    (∃ rs value, as.snapshot = some rs ∧ rs.get? .acmPolicyStatus = some value) ∧
      ∃ ranges, data = .references
        [⟨⟨.registers, none⟩, [Register.acmPolicyStatus.range]⟩, physicalMemory ranges] := by
  obtain ⟨image, refs, -, hrefs, h⟩ := fetch_probe_eq_ok_iff.mp h
  obtain ⟨fit, -, hrefs⟩ := exists_ok_of_bind hrefs
  obtain ⟨status, hstatus, hrefs⟩ := exists_ok_of_bind hrefs
  cases hrefs
  obtain ⟨hpresent, rfl⟩ := Register.of_locate hstatus
  exact ⟨hpresent, _, (fetch_references_eq_ok_iff.mp h).1⟩

theorem references_of_fetch_ibb (h : fetch (.probe .ibb) as = .ok (data, bytes)) :
    ∃ ranges, data = .references [physicalMemory ranges] := by
  obtain ⟨image, refs, -, hrefs, h⟩ := fetch_probe_eq_ok_iff.mp h
  obtain ⟨fit, -, hrefs⟩ := exists_ok_of_bind hrefs
  obtain ⟨regions, -, hrefs⟩ := exists_ok_of_bind hrefs
  cases hrefs
  exact ⟨regions, (fetch_references_eq_ok_iff.mp h).1⟩

end DataSource

/-- Of the extensions of a PCR, each bank has one. -/
theorem Action.filter_extensions {algs : List Algorithm} {alg : Algorithm} (hnodup : algs.Nodup)
    (halg : alg ∈ algs) (actor : Actor) (pcr : UInt8) (source : DataSource) (data : Data) (bytes : ByteArray) :
    (extensions algs actor pcr source data bytes).filter (·.isExtension pcr alg) =
      extensions [alg] actor pcr source data bytes := by
  rw [extensions, extensions]
  split
  · rfl
  · rw [MeasuredData.filter_isExtension hnodup halg, if_pos ⟨rfl, rfl⟩]
    rfl

theorem Action.exists_extension (alg : Algorithm) (actor : Actor) (pcr : UInt8) (source : DataSource)
    (data : Data) {bytes : ByteArray} (h : bytes.isEmpty = false) :
    ∃ e, extensions [alg] actor pcr source data bytes = [e] := by
  rw [extensions, if_neg (by rw [h]; decide)]
  exact ⟨_, rfl⟩

theorem Action.measures_of_mem {algs : List Algorithm} {actor : Actor} {pcr : UInt8} {source : DataSource}
    {refs : References} {bytes : ByteArray} {e : Event}
    (h : e ∈ extensions algs actor pcr source (.references refs) bytes) : e.Measures refs := by
  rw [extensions] at h
  split at h
  · cases h
  · obtain ⟨alg, -, rfl⟩ := List.mem_map.mp h
    exact ⟨_, rfl, rfl⟩

/-- A machine with an image, a snapshot and a new module. -/
def Machine.ofSnapshot (image : BiosImage) (rs : Registers) : Machine :=
  { artifacts := { image := some image, snapshot := some rs }, tpm := some Tpm.fresh }

namespace Run

/-- The end of the root flow, with an image, a snapshot and a new module. -/
def boot (image : BiosImage) (rs : Registers) : Run :=
  (withFlow (Machine.ofSnapshot image rs) Flow.root).finish

theorem snapshot_boot (image : BiosImage) (rs : Registers) :
    (boot image rs).machine.artifacts.snapshot = some rs := by
  obtain ⟨has, -⟩ : (boot image rs).machine.Booked _ Tpm.defaultAlgorithms :=
    booked_finish (.inl ⟨rfl, rfl⟩ : Tpm.IsNew _ Tpm.fresh) rfl
  rw [has]
  rfl

/-- With a value of the policy status, the boot finishes and PCR 0 has the expected value. -/
def BootsTo (image : BiosImage) (rs : Registers) (alg : Algorithm) (expected : ByteArray)
    (value : UInt64) : Prop :=
  let run := boot image (rs.set .acmPolicyStatus value)
  run.status = .finished ∧ ∃ tpm, run.machine.tpm = some tpm ∧ tpm.pcrValue 0 alg = .ok expected

variable {image : BiosImage} {rs : Registers} {alg : Algorithm}

/-- An Intel boot extends PCR 0 by data that starts with the policy status, and then by data of the image
alone, if by any. -/
theorem extensions_of_intel (hfinished : (boot image rs).status = .finished)
    (hintel : (boot image rs).machine.flow = some Flow.intel) (halg : alg ∈ Tpm.defaultAlgorithms) :
    ∃ value tpm first rest ranges ranges', rs.get? .acmPolicyStatus = some value ∧
      (boot image rs).machine.tpm = some tpm ∧ tpm.extensions 0 alg = first :: rest ∧
      first.Measures
        [⟨⟨.registers, none⟩, [Register.acmPolicyStatus.range]⟩, physicalMemory ranges] ∧
      ∀ e ∈ rest, e.Measures [physicalMemory ranges'] := by
  have hnew : Tpm.IsNew Tpm.defaultAlgorithms Tpm.fresh := .inl ⟨rfl, rfl⟩
  have hnodup : Tpm.defaultAlgorithms.Nodup := by decide
  obtain ⟨next, hnext, hat⟩ := At.intel_of_root ⟨rfl, rfl, rfl, rfl⟩ hfinished hintel
  have hnext : boot image rs = next.finish := hnext
  obtain ⟨actor, actor', data, data', bytes, bytes', hfetch, hfetch', hlog⟩ :=
    hat.log_of_intel (hnext ▸ hfinished)
      (show Machine.Booked _ Tpm.defaultAlgorithms _ from ⟨rfl, Tpm.fresh, rfl, rfl, hnew.booked _⟩) rfl
  have hbytes := DataSource.isEmpty_of_fetch_pcr0Data hfetch
  obtain ⟨⟨_, value, hrs, hvalue⟩, ranges, rfl⟩ := DataSource.policyStatus_of_fetch hfetch
  cases hrs
  obtain ⟨ranges', rfl⟩ := DataSource.references_of_fetch_ibb hfetch'
  obtain ⟨first, hfirst⟩ := Action.exists_extension alg actor 0 (.probe .pcr0Data)
    (.references [⟨⟨.registers, none⟩, [Register.acmPolicyStatus.range]⟩, physicalMemory ranges]) hbytes
  have hextensions : (boot image rs).machine.log.filter (·.isExtension 0 alg) = first ::
      Action.extensions [alg] actor' 0 (.probe .ibb) (.references [physicalMemory ranges']) bytes' := by
    rw [hnext, hlog, List.filter_append, Action.filter_extensions hnodup halg,
      Action.filter_extensions hnodup halg, hfirst, List.singleton_append]
  cases htpm : (boot image rs).machine.tpm with
  | none =>
    rw [Machine.log, htpm] at hextensions
    cases hextensions
  | some tpm =>
    rw [Machine.log_of_tpm htpm] at hextensions
    exact ⟨value, tpm, first, _, ranges, ranges', hvalue, rfl, hextensions,
      Action.measures_of_mem (hfirst ▸ List.mem_singleton_self first), fun _ => Action.measures_of_mem⟩

end Run

namespace PcrReplay

variable {image : BiosImage} {rs : Registers} {alg : Algorithm}

/-- The replay of an Intel boot has the policy status once, at the start of the first measurement. -/
theorem exists_replay_of_intel (hfinished : (Run.boot image rs).status = .finished)
    (hintel : (Run.boot image rs).machine.flow = some Flow.intel) (halg : alg ∈ Tpm.defaultAlgorithms) :
    ∃ value replay, rs.get? .acmPolicyStatus = some value ∧
      ofMachine (Run.boot image rs).machine 0 alg = .ok replay ∧
      replay.locate? .acmPolicyStatus = some ⟨.acmPolicyStatus, 0, 0, 8⟩ ∧
      replay.mentions .acmPolicyStatus = 1 := by
  obtain ⟨value, tpm, first, rest, ranges, ranges', hvalue, htpm, hextensions, hfirst, hrest⟩ :=
    Run.extensions_of_intel hfinished hintel halg
  have hbooked : (Run.boot image rs).machine.Booked _ Tpm.defaultAlgorithms :=
    Run.booked_finish (.inl ⟨rfl, rfl⟩ : Tpm.IsNew _ Tpm.fresh) rfl
  -- a module that was not started has no events
  have hstarted : tpm.locality ≠ none := fun hnone => by
    obtain ⟨-, _, hsame, -, hbook⟩ := hbooked
    obtain rfl := Option.some.inj (htpm.symm.trans hsame)
    rw [(hbook.balanced.unstarted hnone).2] at hextensions
    cases hextensions
  obtain ⟨replay, hreplay⟩ := exists_ofMachine hbooked htpm halg hstarted
  refine ⟨value, replay, hvalue, hreplay, ?_⟩
  obtain ⟨_, _, hsame, -, -, -, -, hlogs⟩ := ofMachine_eq_ok_iff.mp hreplay
  obtain rfl := Option.some.inj (htpm.symm.trans hsame)
  rw [hextensions] at hlogs
  obtain ⟨m, ms, hm, hms, hmeasurements⟩ := List.forall₂_cons_left_iff.mp hlogs
  obtain ⟨native, hnative, hextents⟩ := Register.extents_of_resolve (hm.resolve_of_measures hfirst)
  replace hextents : m.extents = (.registers, Register.acmPolicyStatus.range) :: native.extents := hextents
  have himage : ∀ ranges, ∀ r ∈ [physicalMemory ranges], r.artifact = .biosImage :=
    fun _ r hr => List.mem_singleton.mp hr ▸ rfl
  refine ⟨locate?_of_cons hmeasurements (Measurement.offsetOf?_of_extents hextents), ?_⟩
  have hothers : ∀ e ∈ ms.flatMap (·.extents), e.1 = .biosImage := by
    intro e he
    obtain ⟨m', hm', he⟩ := List.mem_flatMap.mp he
    obtain ⟨event, hevent, hlog⟩ := exists_logs_of_mem hms hm'
    exact References.kind_of_resolve (hlog.resolve_of_measures (hrest event hevent)) (himage _) e he
  rw [mentions, hmeasurements, List.flatMap_cons, hextents, List.cons_append]
  exact Measurement.countP_mentions_eq_one
    (List.forall_mem_append.mpr ⟨References.kind_of_resolve hnative (himage _), hothers⟩)

/-- What was measured at the location of a register is its value. -/
theorem measuredAt_of_ofMachine {machine : Machine} {pcr : UInt8} {replay : PcrReplay} {id : Register}
    {location : RegisterLocation} {value : UInt64} (hreplay : ofMachine machine pcr alg = .ok replay)
    (hlocation : replay.locate? id = some location) (hsnapshot : machine.artifacts.snapshot = some rs)
    (hvalue : rs.get? id = some value) (hfits : rs.Fits id) :
    replay.measuredAt location = value.toNat := by
  obtain ⟨rfl, before, m, after, h, hin, hslice⟩ := locates_of_ofMachine hreplay hlocation
  rw [Artifacts.contentOf_registers hsnapshot, Registers.slice_layout, hvalue,
    Option.getD_some] at hslice
  rw [Registers.Fits, hvalue, Option.getD_some] at hfits
  rw [h.measuredAt_eq, ← Bytes.word_slice hin, hslice, h.width_eq, Bytes.word_ofWord,
    Nat.mod_eq_of_lt hfits]

/-- A boot with a value of the policy status ends in a PCR value if and only if the value explains the
PCR value. -/
theorem bootsTo_iff_explains {replay : PcrReplay} {location : RegisterLocation} {expected : ByteArray}
    (hfinished : (Run.boot image rs).status = .finished) (halg : alg ∈ Tpm.defaultAlgorithms)
    (hreplay : ofMachine (Run.boot image rs).machine 0 alg = .ok replay)
    (hlocation : replay.locate? .acmPolicyStatus = some location) (hwidth : location.width = 8)
    (hpresent : (rs.get? .acmPolicyStatus).isSome = true) (hfits : rs.Fits .acmPolicyStatus)
    (hmentions : replay.mentions .acmPolicyStatus = 1) (value : UInt64) :
    Run.BootsTo image rs alg expected value ↔ replay.Explains location expected value.toNat := by
  obtain ⟨hdone, tpm, result, htpm, hresult, hfinal⟩ := rerun_of_ofMachine
    (.inl ⟨rfl, rfl⟩ : Tpm.IsNew _ Tpm.fresh) rfl hfinished rfl hpresent (by decide) halg hreplay hlocation
    value
  have hfinal := hfinal hfits hmentions
  have hlt : value.toNat < 1 <<< (8 * location.width) := by
    rw [hwidth]
    exact value.toNat_lt
  rw [Explains, and_iff_right hlt, hfinal]
  constructor
  · rintro ⟨-, tpm', htpm', hexpected⟩
    obtain rfl := Option.some.inj (htpm.symm.trans htpm')
    rw [← Except.ok.inj (hresult.symm.trans hexpected)]
  · intro h
    exact ⟨hdone, tpm, htpm, Except.ok.inj h ▸ hresult⟩

/-- Of a boot by the Intel flow, the recovery of the policy status does not fail. It finds a value if and
only if the boot with a value within the distance ends in the expected PCR 0. What it finds is such a
value, and no nearer value is. -/
theorem recover_policyStatus {expected : ByteArray} (hfinished : (Run.boot image rs).status = .finished)
    (hintel : (Run.boot image rs).machine.flow = some Flow.intel) (halg : alg ∈ [Algorithm.sha1, .sha256])
    (hsize : alg.digestSize? = some expected.size) (force : Workforce) (maxDistance : Nat) :
    ∃ value replay location outcome, rs.get? .acmPolicyStatus = some value ∧
      ofMachine (Run.boot image rs).machine 0 alg = .ok replay ∧
      replay.locate? .acmPolicyStatus = some location ∧
      replay.recover force location expected maxDistance = .ok outcome ∧
      (outcome.isSome = true ↔ ∃ v : UInt64, Run.BootsTo image rs alg expected v ∧
        Bytes.wordDistance 64 value.toNat v.toNat ≤ maxDistance) ∧
      ∀ r, outcome = some r → ∃ v : UInt64, r.recovered = v.toNat ∧ Run.BootsTo image rs alg expected v ∧
        Bytes.wordDistance 64 value.toNat v.toNat ≤ maxDistance ∧
        ∀ other, Run.BootsTo image rs alg expected other →
          Bytes.wordDistance 64 value.toNat v.toNat ≤ Bytes.wordDistance 64 value.toNat other.toNat := by
  obtain ⟨value, replay, hvalue, hreplay, hlocation, hmentions⟩ :=
    exists_replay_of_intel hfinished hintel halg
  let location : RegisterLocation := ⟨.acmPolicyStatus, 0, 0, 8⟩
  have hfits : rs.Fits .acmPolicyStatus := by
    rw [Registers.Fits]
    exact UInt64.toNat_lt _
  have hmeasured : replay.measuredAt location = value.toNat :=
    measuredAt_of_ofMachine hreplay hlocation (Run.snapshot_boot image rs) hvalue hfits
  have hdistance (v : Nat) : replay.distanceAt location v = Bytes.wordDistance 64 value.toNat v := by
    rw [distanceAt, hmeasured]
    rfl
  have hboots (v : UInt64) : Run.BootsTo image rs alg expected v ↔
      replay.Explains location expected v.toNat :=
    bootsTo_iff_explains hfinished halg hreplay hlocation rfl (by rw [hvalue]; rfl) hfits hmentions v
  obtain ⟨-, -, -, -, -, -, halg', -⟩ := ofMachine_eq_ok_iff.mp hreplay
  obtain ⟨outcome, hrecover, hspec, -⟩ :=
    recover_of_ofMachine hreplay hlocation (halg' ▸ hsize) force maxDistance
  refine ⟨value, replay, location, outcome, hvalue, hreplay, hlocation, hrecover, ?_⟩
  simp only [hboots, ← hdistance]
  cases outcome with
  | none =>
    refine ⟨⟨fun hsome => absurd hsome Bool.false_ne_true, ?_⟩, fun r hr => ?_⟩
    · rintro ⟨v, hv, hle⟩
      exact absurd hle (Nat.not_le_of_lt (hspec v.toNat hv))
    · cases hr
  | some r =>
    obtain ⟨-, -, -, -, hexplains, hle, hnearest⟩ := hspec
    have hword : r.recovered = r.recovered.toUInt64.toNat :=
      (UInt64.toNat_ofNat_of_lt' hexplains.1).symm
    rw [hword] at hexplains hle hnearest
    refine ⟨⟨fun _ => ⟨_, hexplains, hle⟩, fun _ => rfl⟩, ?_⟩
    rintro _ hr
    cases hr
    exact ⟨_, hword, hexplains, hle, fun other hother => hnearest _ hother⟩

/-- A snapshot with a policy status. -/
def smallSnapshot : Registers := { acmPolicyStatus := some 0x1032980E5B }

/-- Of the small image, a policy status that two bits were flipped of is found. -/
theorem recover_policyStatus_smallImage :
    (Run.boot smallImage smallSnapshot).status = .finished ∧
      (Run.boot smallImage smallSnapshot).machine.flow = some Flow.intel ∧
      ∃ expected replay location r v, Algorithm.sha256.digestSize? = some expected.size ∧
        Run.BootsTo smallImage smallSnapshot .sha256 expected 0x1032983E5B ∧
        ofMachine (Run.boot smallImage smallSnapshot).machine 0 .sha256 = .ok replay ∧
        replay.locate? .acmPolicyStatus = some location ∧
        replay.recover {} location expected 2 = .ok (some r) ∧ r.recovered = UInt64.toNat v ∧
        Run.BootsTo smallImage smallSnapshot .sha256 expected v := by
  have hfinished : (Run.boot smallImage smallSnapshot).status = .finished := by
    rw [Run.boot, Run.finish_eq_stepped (show ((Run.withFlow (Machine.ofSnapshot smallImage smallSnapshot)
      Flow.root).stepped 5).status.isTerminal = true by decide +kernel)]
    decide +kernel
  have hfit : Condition.fitPresent.holds (Machine.ofSnapshot smallImage smallSnapshot).artifacts = true :=
    Condition.imageHas_eq_true_iff.mpr ⟨smallImage, _, rfl, TableLayout.small.read_image⟩
  have hintel : (Run.boot smallImage smallSnapshot).machine.flow = some Flow.intel :=
    Run.At.flow_of_fit ⟨rfl, rfl, rfl, rfl⟩ hfit hfinished
  let changed := smallSnapshot.set .acmPolicyStatus 0x1032983E5B
  let run := (Run.withFlow (Machine.ofSnapshot smallImage changed) Flow.root).stepped 5
  have hrun : Run.boot smallImage changed = run := Run.finish_eq_stepped (by decide +kernel)
  let tpm := run.machine.tpm.get (by decide +kernel)
  have htpm : run.machine.tpm = some tpm :=
    (Option.some_get (show run.machine.tpm.isSome = true by decide +kernel)).symm
  let expected := (tpm.pcrValue 0 .sha256).toOption.get (by decide +kernel)
  have hexpected : tpm.pcrValue 0 .sha256 = .ok expected :=
    eq_ok_toOption_get (show (tpm.pcrValue 0 .sha256).toOption.isSome = true by decide +kernel)
  have hdone : run.status = .finished := by decide +kernel
  have hsize : Algorithm.sha256.digestSize? = some expected.size := by decide +kernel
  have hboots : Run.BootsTo smallImage smallSnapshot .sha256 expected 0x1032983E5B :=
    ⟨hrun ▸ hdone, tpm, hrun ▸ htpm, hexpected⟩
  obtain ⟨value, replay, location, outcome, hvalue, hreplay, hlocation, hrecover, hiff, hfound⟩ :=
    recover_policyStatus hfinished hintel (by decide) hsize {} 2
  obtain rfl := Option.some.inj hvalue
  obtain ⟨r, rfl⟩ := Option.isSome_iff_exists.mp (hiff.mpr ⟨_, hboots, by decide⟩)
  obtain ⟨v, hv, hbootsv, -⟩ := hfound r rfl
  exact ⟨hfinished, hintel, expected, replay, location, r, v, hsize, hboots, hreplay, hlocation, hrecover,
    hv, hbootsv⟩

end PcrReplay

end MeasuredBoot
