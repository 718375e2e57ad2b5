import MeasuredBoot.Proofs.Recovery.Location
import MeasuredBoot.Proofs.Recovery.Replay
import MeasuredBoot.Proofs.Search.Context
import MeasuredBoot.Proofs.Tpm.Extending
import MeasuredBoot.Recovery

/-!
# What a recovery finds

A recovery varies the bytes at a location of a replay. A value explains a PCR value if the replay ends
in that PCR value with the bytes at the location replaced (`PcrReplay.withValue`,
`PcrReplay.Explains`). The search finds such values:

* `PcrReplay.locates_of_locate?`, `Measurement.Logs.of_offsetOf?`: the location is within the payload;
* `ReplayWindow.search_checksWithin`: what candidates leave behind in a worker's payload does not show;
* `PcrReplay.Locates.exists_search`: a candidate is accepted if its number explains the PCR value
  (`PcrReplay.Searches`), and the recovery comes to what the search finds;
* `PcrReplay.Locates.recover_spec`, `PcrReplay.recover_nearest`: the recovery does not fail and finds a
  nearest value, if there is one within the distance.
-/

namespace MeasuredBoot

/-! ## Locations -/

namespace Measurement

/-- The bytes and the references of a measurement agree, unless it has no references. -/
theorem Logs.of_references {as : Artifacts} {event : Event} {m : Measurement} (h : m.Logs as event) :
    m.references = [] ∨ (∀ e ∈ m.extents, as.Has e) ∧ m.payload = as.bytesAt m.extents := by
  obtain ⟨⟨⟨content, converter⟩, source, actor, chain⟩, -, -, hbytes, hnative⟩ := h
  cases content with
  | forced bytes =>
    exact .inl (Except.ok.inj hnative).symm
  | references refs =>
    cases converter with
    | some c =>
      exact .inl (Except.ok.inj hnative).symm
    | none =>
      obtain ⟨raw, hraw, h⟩ := exists_ok_of_bind hbytes
      cases h
      obtain ⟨native, hresolve, hall, hpayload⟩ := References.bytes_eq_ok_iff.mp hraw
      obtain rfl : native = m.references := Except.ok.inj (hresolve.symm.trans hnative)
      exact .inr ⟨hall, hpayload⟩

/-- Where a register is found in a measurement, the payload has the bytes of the register. -/
theorem Logs.of_offsetOf? {as : Artifacts} {event : Event} {m : Measurement} {id : Register}
    {offset : Nat} (h : m.Logs as event) (hoffset : m.offsetOf? id = some offset) :
    offset + id.width ≤ m.payload.size ∧ Bytes.slice m.payload offset id.width =
      Bytes.slice (as.contentOf .registers) id.range.offset.toNat id.width := by
  obtain hnone | ⟨hall, hpayload⟩ := h.of_references
  · rw [offsetOf?, extents, hnone] at hoffset
    cases hoffset
  · rw [hpayload]
    exact of_offsetFrom? hall hoffset

/-- The measurement of a payload of which some bytes were replaced. -/
def withBytes (alg : Algorithm) (m : Measurement) (offset : Nat) (bytes : ByteArray) : Measurement :=
  let payload := Bytes.splice m.payload offset bytes
  { m with payload, digest := (alg.digest? payload).getD ByteArray.empty }

end Measurement

/-- What flips of the bytes that were measured make of the register. -/
def RegisterLocation.found (location : RegisterLocation) (initial : ByteArray) (flips : Combination) :
    RecoveredRegister where
  id := location.id
  flips
  measured := location.id.decode initial
  recovered := location.id.decode (Bytes.flipBits flips initial)

namespace PcrReplay

/-- The location is that of a register in a measurement, which comes between others. -/
structure Locates (replay : PcrReplay) (location : RegisterLocation) (before : List Measurement)
    (m : Measurement) (after : List Measurement) : Prop where
  measurements_eq : replay.measurements = before ++ m :: after
  index_eq : location.measurement = before.length
  width_eq : location.width = location.id.width
  offset_eq : m.offsetOf? location.id = some location.offset

/-- A register is located in the first measurement where it is found. -/
theorem locates_of_locate? {replay : PcrReplay} {id : Register} {location : RegisterLocation}
    (h : replay.locate? id = some location) :
    location.id = id ∧ ∃ before m after, replay.Locates location before m after ∧
      ∀ other ∈ before, other.offsetOf? id = none := by
  obtain ⟨front, ⟨m, index⟩, back, hsplit, hfound, hnone⟩ := List.findSome?_eq_some_iff.mp h
  obtain ⟨offset, hoffset, rfl⟩ := Option.map_eq_some_iff.mp hfound
  obtain ⟨before, rest, hms, rfl, hback⟩ := List.zipIdx_eq_append_iff.mp hsplit
  obtain ⟨m', after, rfl, hm, -⟩ := List.zipIdx_eq_cons_iff.mp hback.symm
  cases hm
  refine ⟨rfl, before, m, after, ⟨hms, Nat.zero_add _, rfl, hoffset⟩, fun other hother => ?_⟩
  obtain ⟨i, hi, rfl⟩ := List.getElem_of_mem hother
  have hindexed : (before[i], i) ∈ before.zipIdx :=
    List.mem_zipIdx_iff_getElem?.mpr (List.getElem?_eq_getElem hi)
  exact Option.map_eq_none_iff.mp (hnone _ hindexed)

/-- The replay with the bytes at a location replaced by those of a number. -/
def withValue (replay : PcrReplay) (location : RegisterLocation) (value : Nat) : PcrReplay :=
  { replay with
    measurements := replay.measurements.modify location.measurement
      (·.withBytes replay.alg location.offset (Bytes.ofWord value location.width)) }

/-- The number of the bytes at a location. -/
def measuredAt (replay : PcrReplay) (location : RegisterLocation) : Nat :=
  match replay.measurements[location.measurement]? with
  | some m => Bytes.word m.payload location.offset location.width
  | none => 0

/-- The number of bits in which a value differs from what was measured at a location. -/
def distanceAt (replay : PcrReplay) (location : RegisterLocation) (value : Nat) : Nat :=
  Bytes.wordDistance (8 * location.width) (replay.measuredAt location) value

/-- With the value at the location, which has room for it, the replay ends in the expected value. -/
def Explains (replay : PcrReplay) (location : RegisterLocation) (expected : ByteArray) (value : Nat) :
    Prop :=
  value < 1 <<< (8 * location.width) ∧ (replay.withValue location value).finalValue = .ok expected

/-- What a recovery is to come to: a nearest value that explains the expected one, or nothing if none
does within the distance. -/
def Recovers (replay : PcrReplay) (location : RegisterLocation) (expected : ByteArray)
    (maxDistance : Nat) : Option RecoveredRegister → Prop
  | none => ∀ value, replay.Explains location expected value → maxDistance < replay.distanceAt location value
  | some r => r.id = location.id ∧ r.measured = replay.measuredAt location ∧
      r.recovered = r.measured ^^^ Bytes.mask r.flips ∧
      replay.distanceAt location r.recovered = r.flips.length ∧
      replay.Explains location expected r.recovered ∧
      replay.distanceAt location r.recovered ≤ maxDistance ∧
      ∀ value, replay.Explains location expected value →
        replay.distanceAt location r.recovered ≤ replay.distanceAt location value

/-- No other flips of as many bits that explain the expected value have a lower number. -/
def LeastFlips (replay : PcrReplay) (location : RegisterLocation) (expected : ByteArray)
    (flips : Combination) : Prop :=
  ∀ other, Combination.Chooses other flips.length (8 * location.width) →
    replay.Explains location expected (replay.measuredAt location ^^^ Bytes.mask other) →
    Combination.weight 0 flips ≤ Combination.weight 0 other

end PcrReplay

/-! ## The check of a candidate -/

namespace ReplayWindow

theorem finalValue_eq {w : ReplayWindow} (h : w.alg.isHash = true) (payload : ByteArray) :
    w.finalValue payload =
      w.alg.extendAll w.before ((w.alg.digest? payload).getD ByteArray.empty :: w.after) := by
  rw [finalValue, Algorithm.hash_eq_ok h, ok_bind, Algorithm.extendAll_cons]

/-- A worker's payload may have candidates in the place of the measured bytes, which the next one
replaces. -/
theorem search_checksWithin {w : ReplayWindow} (force : Workforce) {initial : ByteArray}
    (expected : ByteArray) {offset : Nat} (h : offset + initial.size ≤ w.payload.size) :
    (w.search force initial expected offset).ChecksWithin
      (fun payload => payload.size = w.payload.size ∧ ∀ candidate, candidate.size = initial.size →
        Bytes.splice payload offset candidate = Bytes.splice w.payload offset candidate)
      (fun candidate => w.explains expected (Bytes.splice w.payload offset candidate)) where
  init _ := ⟨w.payload, rfl, rfl, fun _ _ => rfl⟩
  check payload candidate hpayload hsize := by
    obtain ⟨hlen, hsplice⟩ := hpayload
    have hin : offset + candidate.size ≤ payload.size := by
      rw [hsize, hlen]
      exact h
    refine ⟨congrArg (w.explains expected) (hsplice candidate hsize), ?_, fun other hother => ?_⟩
    · exact (Bytes.size_splice hin).trans hlen
    · show Bytes.splice (Bytes.splice payload offset candidate) offset other = _
      rw [Bytes.splice_splice hin (hother.trans hsize.symm)]
      exact hsplice other hother

theorem beq_bytes_iff {a b : ByteArray} : (a == b) = true ↔ a = b := by
  cases a with | mk a =>
  cases b with | mk b =>
  refine ⟨fun h => ?_, fun h => ?_⟩
  · have hdata : (a == b) = true := h
    rw [beq_iff_eq.mp hdata]
  · cases h
    exact beq_self_eq_true a

theorem explains_iff {w : ReplayWindow} {expected payload : ByteArray} :
    w.explains expected payload = true ↔ w.finalValue payload = .ok expected := by
  rw [explains]
  cases w.finalValue payload with
  | error e => exact ⟨nofun, nofun⟩
  | ok value => exact beq_bytes_iff.trans ⟨congrArg Except.ok, Except.ok.inj⟩

end ReplayWindow

/-! ## The window of a location -/

namespace PcrReplay

section

variable {replay : PcrReplay} {location : RegisterLocation} {before after : List Measurement}
  {m : Measurement} {expected : ByteArray}

theorem Locates.measurements_withValue (h : replay.Locates location before m after) (value : Nat) :
    (replay.withValue location value).measurements =
      before ++ m.withBytes replay.alg location.offset (Bytes.ofWord value location.width) :: after := by
  have hlt : before.length < (before ++ m :: after).length := by
    rw [List.length_append, List.length_cons]
    omega
  rw [withValue, h.measurements_eq, h.index_eq, List.modify_eq_take_cons_drop hlt, List.take_left,
    List.getElem_of_append rfl rfl, List.drop_length_add_append, List.drop_one, List.tail_cons]

theorem Locates.getElem?_eq (h : replay.Locates location before m after) :
    replay.measurements[location.measurement]? = some m := by
  rw [h.measurements_eq, h.index_eq, List.getElem?_append_right (Nat.le_refl _), Nat.sub_self]
  rfl

theorem Locates.measuredAt_eq (h : replay.Locates location before m after) :
    replay.measuredAt location = Bytes.word m.payload location.offset location.width := by
  rw [measuredAt, h.getElem?_eq]

/-- The window of a location, with the value of the PCR before the measurement. -/
theorem Locates.exists_window (h : replay.Locates location before m after)
    (hhash : replay.alg.isHash = true) (hin : location.offset + location.width ≤ m.payload.size) :
    ∃ value, replay.alg.extendAll replay.initial (digests before) = .ok value ∧
      replay.window location = .ok (⟨replay.alg, value, m.payload, digests after⟩,
        Bytes.slice m.payload location.offset location.width) := by
  obtain ⟨value, hvalue⟩ := Algorithm.exists_extendAll hhash replay.initial (digests before)
  refine ⟨value, hvalue, ?_⟩
  have htake : replay.measurements.take location.measurement = before := by
    rw [h.measurements_eq, h.index_eq, List.take_left]
  have hdrop : replay.measurements.drop (location.measurement + 1) = after := by
    rw [h.measurements_eq, h.index_eq, List.drop_length_add_append, List.drop_one, List.tail_cons]
  rw [window, h.getElem?_eq]
  dsimp only
  rw [if_pos hin, htake, hdrop, hvalue]
  rfl

/-- With a candidate the window has the final value of the replay with the number of the candidate. -/
theorem Locates.finalValue_iff (h : replay.Locates location before m after)
    (hhash : replay.alg.isHash = true) {value candidate : ByteArray}
    (hvalue : replay.alg.extendAll replay.initial (digests before) = .ok value)
    (hsize : candidate.size = location.width) :
    ReplayWindow.finalValue ⟨replay.alg, value, m.payload, digests after⟩
        (Bytes.splice m.payload location.offset candidate) = .ok expected ↔
      (replay.withValue location (Bytes.word candidate 0 location.width)).finalValue = .ok expected := by
  have hdigests : digests (replay.withValue location (Bytes.word candidate 0 location.width)).measurements =
      digests before ++ ((replay.alg.digest?
        (Bytes.splice m.payload location.offset candidate)).getD ByteArray.empty :: digests after) := by
    rw [h.measurements_withValue, Bytes.ofWord_word hsize, digests, List.map_append, List.map_cons]
    rfl
  have halg : (replay.withValue location (Bytes.word candidate 0 location.width)).alg = replay.alg := rfl
  have hinitial : (replay.withValue location (Bytes.word candidate 0 location.width)).initial =
      replay.initial := rfl
  rw [finalValue, mapError_eq_ok_iff, hdigests, halg, hinitial, Algorithm.extendAll_append, hvalue,
    ok_bind, ReplayWindow.finalValue_eq hhash]

end

/-- The shells of a register are all numbered: half of 64 bits can still be chosen in few enough ways. -/
theorem isSome_shellSize? (id : Register) (d : Nat) : (shellSize? (8 * id.width) d).isSome = true := by
  have hmiddle : Nat.choose 64 32 < idBound := by
    rw [Nat.choose_eq_descFactorial_div_factorial]
    decide
  have hlt : (8 * id.width).choose d < idBound :=
    calc (8 * id.width).choose d
        ≤ Nat.choose 64 d := Nat.choose_le_choose d (Nat.mul_le_mul_left 8 id.width_le)
      _ ≤ Nat.choose 64 32 := Nat.choose_le_middle d 64
      _ < idBound := hmiddle
  rw [shellSize?_eq_ite, if_pos hlt]
  rfl

/-! ## The recovery -/

/-- The search varies the bytes that were measured at the location, and accepts a candidate if its number
explains the expected value. -/
structure Searches (replay : PcrReplay) (location : RegisterLocation) (expected initial : ByteArray)
    (accepts : ByteArray → Bool) : Prop where
  width_eq : location.width = location.id.width
  size_eq : initial.size = location.width
  word_eq : Bytes.word initial 0 location.width = replay.measuredAt location
  accepts_iff : ∀ candidate : ByteArray, candidate.size = location.width →
    (accepts candidate = true ↔
      replay.Explains location expected (Bytes.word candidate 0 location.width))

namespace Searches

variable {replay : PcrReplay} {location : RegisterLocation} {expected initial : ByteArray}
  {accepts : ByteArray → Bool} {flips : Combination}

theorem decode_eq (h : replay.Searches location expected initial accepts) (bytes : ByteArray) :
    location.id.decode bytes = Bytes.word bytes 0 location.width := by
  rw [h.width_eq, Register.decode]

theorem distance_eq (h : replay.Searches location expected initial accepts) (candidate : ByteArray) :
    Bytes.distance initial candidate =
      replay.distanceAt location (Bytes.word candidate 0 location.width) := by
  rw [Bytes.distance_eq_wordDistance h.size_eq, h.word_eq, distanceAt]

theorem word_flipBits (h : replay.Searches location expected initial accepts)
    (hbelow : ∀ b ∈ flips, b < 8 * location.width) :
    Bytes.word (Bytes.flipBits flips initial) 0 location.width =
      replay.measuredAt location ^^^ Bytes.mask flips := by
  rw [Bytes.word_flipBits h.size_eq hbelow, h.word_eq]

/-- If all candidates nearer than a distance are rejected, the values that explain the expected one are
as far away. -/
theorem le_distanceAt (h : replay.Searches location expected initial accepts) {d value : Nat}
    (hreject : ∀ data : ByteArray, data.size = initial.size → Bytes.distance initial data < d →
      accepts data = false)
    (hvalue : replay.Explains location expected value) : d ≤ replay.distanceAt location value := by
  have hword : Bytes.word (Bytes.ofWord value location.width) 0 location.width = value := by
    rw [Bytes.word_ofWord, Nat.mod_eq_of_lt hvalue.1]
  have hsize := Bytes.size_ofWord value location.width
  by_contra hlt
  have hno := hreject (Bytes.ofWord value location.width) (hsize.trans h.size_eq.symm)
    (by rw [h.distance_eq, hword]; exact Nat.lt_of_not_le hlt)
  have hyes := (h.accepts_iff _ hsize).mpr (hword.symm ▸ hvalue)
  exact Bool.false_ne_true (hno.symm.trans hyes)

/-- Flips that are accepted, with no nearer candidate that is. -/
theorem recovers_found (h : replay.Searches location expected initial accepts) {maxDistance : Nat}
    (hascending : flips.Pairwise (· < ·)) (hbelow : ∀ b ∈ flips, b < 8 * location.width)
    (hle : flips.length ≤ maxDistance) (haccept : accepts (Bytes.flipBits flips initial) = true)
    (hreject : ∀ data : ByteArray, data.size = initial.size →
      Bytes.distance initial data < flips.length → accepts data = false) :
    replay.Recovers location expected maxDistance (some (location.found initial flips)) := by
  have hbits : ∀ b ∈ flips, b < Bytes.bitCount initial := by rwa [Bytes.bitCount, h.size_eq]
  have hrecovered : (location.found initial flips).recovered =
      Bytes.word (Bytes.flipBits flips initial) 0 location.width := h.decode_eq _
  have hmeasured : (location.found initial flips).measured = replay.measuredAt location :=
    (h.decode_eq initial).trans h.word_eq
  have hlength : replay.distanceAt location (location.found initial flips).recovered = flips.length := by
    rw [hrecovered, ← h.distance_eq, Bytes.distance_flipBits hascending hbits]
  refine ⟨rfl, hmeasured, ?_, hlength, ?_, hlength.trans_le hle, fun value hvalue => ?_⟩
  · rw [hrecovered, hmeasured]
    exact h.word_flipBits hbelow
  · rw [hrecovered]
    exact (h.accepts_iff _ ((Bytes.size_flipBits ..).trans h.size_eq)).mp haccept
  · rw [hlength]
    exact h.le_distanceAt hreject hvalue

/-- If those of the least number are found, among as many flips that are accepted. -/
theorem leastFlips (h : replay.Searches location expected initial accepts)
    (hleast : ∀ other, Combination.Chooses other flips.length (8 * location.width) →
      accepts (Bytes.flipBits other initial) = true →
        Combination.weight 0 flips ≤ Combination.weight 0 other) :
    replay.LeastFlips location expected flips := by
  intro other hother hvalue
  refine hleast other hother ((h.accepts_iff _ ((Bytes.size_flipBits ..).trans h.size_eq)).mpr ?_)
  rwa [h.word_flipBits hother.below]

end Searches

/-- A recovery comes to what its search finds. -/
theorem Locates.exists_search {replay : PcrReplay} {location : RegisterLocation}
    {before after : List Measurement} {m : Measurement} {expected : ByteArray}
    (h : replay.Locates location before m after)
    (hin : location.offset + location.width ≤ m.payload.size)
    (hsize : replay.alg.digestSize? = some expected.size) :
    ∃ (w : ReplayWindow) (initial : ByteArray), location.offset + initial.size ≤ w.payload.size ∧
      replay.Searches location expected initial
        (fun candidate => w.explains expected (Bytes.splice w.payload location.offset candidate)) ∧
      ∀ force maxDistance found,
        ((w.search force initial expected location.offset).run maxDistance).outcome = .ok found →
        replay.recover force location expected maxDistance =
          .ok (found.map (location.found initial)) := by
  have hhash : replay.alg.isHash = true := by rw [Algorithm.isHash, hsize]; rfl
  have hdigest : replay.alg.digestSize = .ok expected.size := by rw [Algorithm.digestSize, hsize]
  obtain ⟨value, hvalue, hwindow⟩ := h.exists_window hhash hin
  have hinitial := Bytes.size_slice hin
  refine ⟨⟨replay.alg, value, m.payload, digests after⟩,
    Bytes.slice m.payload location.offset location.width, hinitial.symm ▸ hin,
    ⟨h.width_eq, hinitial, ?_, fun candidate hcandidate => ?_⟩, fun force maxDistance found hout => ?_⟩
  · rw [h.measuredAt_eq]
    exact Bytes.word_slice hin
  · rw [ReplayWindow.explains_iff, h.finalValue_iff hhash hvalue hcandidate, Explains,
      and_iff_right (Bytes.word_lt candidate 0 location.width)]
  · rw [recover, hdigest]
    simp only [Except.mapError, ok_bind]
    rw [if_neg (not_not_intro rfl), hwindow]
    simp only [ok_bind]
    rw [hout]
    cases found <;> rfl

/-- A recovery does not fail, and comes to what it is to come to. Of the flips at the least distance a
single worker finds those of the least number. -/
theorem Locates.recover_spec {replay : PcrReplay} {location : RegisterLocation}
    {before after : List Measurement} {m : Measurement} {expected : ByteArray}
    (h : replay.Locates location before m after)
    (hin : location.offset + location.width ≤ m.payload.size)
    (hsize : replay.alg.digestSize? = some expected.size) (force : Workforce) (maxDistance : Nat) :
    ∃ outcome, replay.recover force location expected maxDistance = .ok outcome ∧
      replay.Recovers location expected maxDistance outcome ∧
      ((∀ d count, force.workerCount d count = 1) → ∀ r, outcome = some r →
        replay.LeastFlips location expected r.flips) := by
  obtain ⟨w, initial, hinside, hs, hrecover⟩ := h.exists_search hin hsize
  have hbits : (w.search force initial expected location.offset).bits = 8 * location.width :=
    congrArg (8 * ·) hs.size_eq
  have hcases := Search.outcome_cases (w.search_checksWithin force expected hinside) maxDistance
  rw [hbits] at hcases
  obtain ⟨flips, hout, hascending, hbelow, hle, haccept, hreject, hleast⟩ | ⟨hout, hreject⟩ |
    ⟨d, -, hnone⟩ := hcases
  · refine ⟨_, hrecover force maxDistance _ hout,
      hs.recovers_found hascending hbelow hle haccept hreject, fun hone r hr => ?_⟩
    cases hr
    exact hs.leastFlips (hleast hone)
  · refine ⟨_, hrecover force maxDistance _ hout, fun value hvalue => ?_, nofun⟩
    exact hs.le_distanceAt (fun data hdata hlt => hreject data hdata (Nat.le_of_lt_succ hlt)) hvalue
  · -- a register has so few bits that every shell is numbered
    have hsome := isSome_shellSize? location.id d
    rw [← h.width_eq, hnone] at hsome
    cases hsome

/-- A recovery that does not fail was given an expected value of the size of a digest. -/
theorem size_of_recover {replay : PcrReplay} {force : Workforce} {location : RegisterLocation}
    {expected : ByteArray} {maxDistance : Nat} {outcome : Option RecoveredRegister}
    (h : replay.recover force location expected maxDistance = .ok outcome) :
    replay.alg.digestSize? = some expected.size := by
  obtain ⟨size, hsize, h⟩ := exists_ok_of_bind h
  have hsize := mapError_eq_ok_iff.mp hsize
  rw [Algorithm.digestSize] at hsize
  by_cases hne : expected.size ≠ size
  · rw [if_pos hne] at h
    cases h
  · cases hdigest : replay.alg.digestSize? with
    | none =>
      rw [hdigest] at hsize
      cases hsize
    | some n =>
      rw [hdigest] at hsize
      exact congrArg some ((Except.ok.inj hsize).trans (not_not.mp hne).symm)

/-- A register that is located in the replay of a machine is within a payload. -/
theorem locates_of_ofMachine {machine : Machine} {pcr : UInt8} {alg : Algorithm} {replay : PcrReplay}
    {id : Register} {location : RegisterLocation} (hreplay : ofMachine machine pcr alg = .ok replay)
    (hlocation : replay.locate? id = some location) :
    location.id = id ∧ ∃ before m after, replay.Locates location before m after ∧
      location.offset + location.width ≤ m.payload.size ∧
      Bytes.slice m.payload location.offset location.width =
        Bytes.slice (machine.artifacts.contentOf .registers) id.range.offset.toNat id.width := by
  obtain ⟨tpm, locality, -, -, -, -, -, hlogs⟩ := ofMachine_eq_ok_iff.mp hreplay
  obtain ⟨rfl, before, m, after, h, -⟩ := locates_of_locate? hlocation
  have hmem : m ∈ replay.measurements := by
    rw [h.measurements_eq]
    exact List.mem_append_right before List.mem_cons_self
  obtain ⟨event, -, hlog⟩ := exists_logs_of_mem hlogs hmem
  have hwithin := hlog.of_offsetOf? h.offset_eq
  refine ⟨rfl, before, m, after, h, ?_⟩
  rw [h.width_eq]
  exact hwithin

/-- A recovery at the location of a register in the replay of a machine. -/
theorem recover_of_ofMachine {machine : Machine} {pcr : UInt8} {alg : Algorithm} {replay : PcrReplay}
    {id : Register} {location : RegisterLocation} {expected : ByteArray}
    (hreplay : ofMachine machine pcr alg = .ok replay) (hlocation : replay.locate? id = some location)
    (hsize : replay.alg.digestSize? = some expected.size) (force : Workforce) (maxDistance : Nat) :
    ∃ outcome, replay.recover force location expected maxDistance = .ok outcome ∧
      replay.Recovers location expected maxDistance outcome ∧
      ((∀ d count, force.workerCount d count = 1) → ∀ r, outcome = some r →
        replay.LeastFlips location expected r.flips) := by
  obtain ⟨-, before, m, after, h, hin, -⟩ := locates_of_ofMachine hreplay hlocation
  exact h.recover_spec hin hsize force maxDistance

/-- A recovery finds a value if one within the distance explains the expected PCR value. -/
theorem exists_recover {machine : Machine} {pcr : UInt8} {alg : Algorithm} {replay : PcrReplay}
    {id : Register} {location : RegisterLocation} {expected : ByteArray} {value maxDistance : Nat}
    (hreplay : ofMachine machine pcr alg = .ok replay) (hlocation : replay.locate? id = some location)
    (hsize : replay.alg.digestSize? = some expected.size)
    (hexplains : replay.Explains location expected value)
    (hle : replay.distanceAt location value ≤ maxDistance) (force : Workforce) :
    ∃ r, replay.recover force location expected maxDistance = .ok (some r) ∧
      replay.Recovers location expected maxDistance (some r) ∧
      ((∀ d count, force.workerCount d count = 1) → replay.LeastFlips location expected r.flips) := by
  obtain ⟨outcome, hrecover, hspec, hleast⟩ :=
    recover_of_ofMachine hreplay hlocation hsize force maxDistance
  cases outcome with
  | none => exact absurd hle (Nat.not_le_of_lt (hspec value hexplains))
  | some r => exact ⟨r, hrecover, hspec, fun hone => hleast hone r rfl⟩

/-- Of the replay of a machine, a recovery at the location of a register does not fail. It finds a value
if and only if a value of the register's width within the distance explains the expected one. What it
finds is what was measured with some bits flipped, it explains the expected value, and no value with
fewer flipped bits does. -/
theorem recover_nearest {machine : Machine} {pcr : UInt8} {alg : Algorithm} {replay : PcrReplay}
    {id : Register} {location : RegisterLocation} {expected : ByteArray}
    (hreplay : ofMachine machine pcr alg = .ok replay)
    (hlocation : replay.locate? id = some location)
    (hsize : alg.digestSize? = some expected.size) (force : Workforce) (maxDistance : Nat) :
    ∃ m outcome, replay.measurements[location.measurement]? = some m ∧
      location.offset + location.width ≤ m.payload.size ∧
      replay.recover force location expected maxDistance = .ok outcome ∧
      (outcome.isSome = true ↔ ∃ value, replay.Explains location expected value ∧
        replay.distanceAt location value ≤ maxDistance) ∧
      ∀ r, outcome = some r → r.id = id ∧
        r.measured = id.decode (Bytes.slice m.payload location.offset location.width) ∧
        r.recovered = r.measured ^^^ Bytes.mask r.flips ∧
        replay.Explains location expected r.recovered ∧
        replay.distanceAt location r.recovered ≤ maxDistance ∧
        ∀ value, replay.Explains location expected value →
          replay.distanceAt location r.recovered ≤ replay.distanceAt location value := by
  obtain ⟨-, -, -, -, -, -, halg, -⟩ := ofMachine_eq_ok_iff.mp hreplay
  obtain ⟨rfl, before, m, after, h, hin, -⟩ := locates_of_ofMachine hreplay hlocation
  obtain ⟨outcome, hrecover, hspec, -⟩ := h.recover_spec hin (halg ▸ hsize) force maxDistance
  refine ⟨m, outcome, h.getElem?_eq, hin, hrecover, ?_, ?_⟩
  · cases outcome with
    | none => exact ⟨nofun, fun ⟨v, hv, hle⟩ => absurd (hspec v hv) (Nat.not_lt_of_le hle)⟩
    | some r =>
      obtain ⟨-, -, -, -, hexplains, hle, -⟩ := hspec
      exact ⟨fun _ => ⟨r.recovered, hexplains, hle⟩, fun _ => rfl⟩
  · rintro r rfl
    obtain ⟨hid, hmeasured, hrecovered, -, hspec⟩ := hspec
    refine ⟨hid, ?_, hrecovered, hspec⟩
    rw [hmeasured, h.measuredAt_eq, Register.decode, ← h.width_eq, Bytes.word_slice hin]

/-- A machine that measures a register. -/
def measuresRegister : Machine :=
  { artifacts := { snapshot := some { txtErrorCode := some 5 } }
    tpm := some Tpm.fresh
    flow := some (.mk "register" [
      .static [.initTpm 3], .static [.extend 0 (.register .txtErrorCode)]]) }

/-- The value with which the register explains a PCR value is found, two bits away. -/
theorem recover_nearest_measuresRegister :
    let machine := (Run.ofMachine measuresRegister).next.1.next.1.next.1.machine
    ∃ replay location expected r, ofMachine machine 0 .sha1 = .ok replay ∧
      replay.locate? .txtErrorCode = some location ∧
      Algorithm.sha1.digestSize? = some expected.size ∧
      replay.recover {} location expected 2 = .ok (some r) ∧ r.measured = 5 ∧
      replay.Explains location expected r.recovered := by
  intro machine
  let replay := (ofMachine machine 0 .sha1).toOption.get (by decide +kernel)
  let location : RegisterLocation := ⟨.txtErrorCode, 0, 0, 4⟩
  let expected := (replay.withValue location 0x1004).finalValue.toOption.get (by decide +kernel)
  have hreplay : ofMachine machine 0 .sha1 = .ok replay := eq_ok_toOption_get _
  have hlocation : replay.locate? .txtErrorCode = some location := by decide +kernel
  have hsize : Algorithm.sha1.digestSize? = some expected.size := by decide +kernel
  obtain ⟨m, outcome, hm, -, hrecover, hiff, hfound⟩ := recover_nearest hreplay hlocation hsize {} 2
  have hexplains : replay.Explains location expected 0x1004 := ⟨by decide, eq_ok_toOption_get _⟩
  obtain ⟨r, rfl⟩ := Option.isSome_iff_exists.mp (hiff.mpr ⟨0x1004, hexplains, by decide +kernel⟩)
  obtain ⟨-, hmeasured, -, hrecovered, -⟩ := hfound r rfl
  have hword : (replay.measurements[0]?.map fun m => Register.txtErrorCode.decode
      (Bytes.slice m.payload 0 4)) = some 5 := by decide +kernel
  rw [hm] at hword
  exact ⟨replay, location, expected, r, hreplay, hlocation, hsize, hrecover,
    hmeasured.trans (Option.some.inj hword), hrecovered⟩

end PcrReplay

end MeasuredBoot
