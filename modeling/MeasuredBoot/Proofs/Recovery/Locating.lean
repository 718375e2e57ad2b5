import MeasuredBoot.Proofs.Range.Covering
import MeasuredBoot.Proofs.Recovery.Nearest
import MeasuredBoot.Proofs.Register.Reading

/-!
# Where a register was measured

A measurement carries a register if one of its ranges of the snapshot includes the range of the register
(`Measurement.Carries`). The register is located in the first measurement that does, behind the bytes of the
ranges that come before that range.

* `Measurement.of_offsetFrom?_eq_some`: the offset is counted out from the extents in front;
* `Measurement.exists_offsetOf?_iff`: a register is found where it is carried;
* `PcrReplay.locate?_carries`: the location has the bytes that the snapshot has in the register's range.
-/

namespace MeasuredBoot

/-- A range that contains that of a register includes all of its bytes. -/
theorem Register.contains_range_iff {id : Register} {range : Range} :
    range.contains id.range = true ↔ range.offset.toNat ≤ id.range.offset.toNat ∧
      id.range.offset.toNat + id.width ≤ range.offset.toNat + range.length.toNat := by
  refine ⟨of_contains_range, fun ⟨hlo, hhi⟩ => Range.contains_iff.mpr ⟨hlo, ?_⟩⟩
  exact Nat.le_min.mpr ⟨id.stop_range ▸ hhi, id.range.stop_le_lastOffset⟩

namespace Measurement

variable {target : Range} {es : List Extent} {id : Register} {m : Measurement}

/-- One range of the snapshot that was measured includes that of a register. -/
def Carries (m : Measurement) (id : Register) : Prop :=
  ∃ r ∈ m.references, r.artifact = .registers ∧ ∃ range ∈ r.ranges,
    range.offset.toNat ≤ id.range.offset.toNat ∧
      id.range.offset.toNat + id.width ≤ range.offset.toNat + range.length.toNat

/-- The number of bytes of some extents. -/
def byteCount : List Extent → Nat
  | [] => 0
  | e :: rest => e.2.length.toNat + byteCount rest

theorem byteCount_append (xs ys : List Extent) :
    byteCount (xs ++ ys) = byteCount xs + byteCount ys := by
  induction xs with
  | nil => exact (Nat.zero_add _).symm
  | cons e rest ih => rw [List.cons_append, byteCount, byteCount, ih, Nat.add_assoc]

/-! ## Offsets -/

/-- A range is found if an extent of the snapshot contains it. -/
theorem exists_offsetFrom?_iff {before : Nat} :
    (∃ offset, offsetFrom? target before es = some offset) ↔
      ∃ e ∈ es, e.1 = .registers ∧ e.2.contains target = true := by
  induction es generalizing before with
  | nil => exact ⟨nofun, nofun⟩
  | cons e rest ih =>
    rw [offsetFrom?, List.exists_mem_cons_iff]
    by_cases he : e.1 = .registers ∧ e.2.contains target = true
    · exact iff_of_true ⟨_, if_pos he⟩ (.inl he)
    · rw [if_neg he, or_iff_right he, ih]

/-- A range is found in the first extent that contains it, behind the bytes of the extents in front. -/
theorem of_offsetFrom?_eq_some {before offset : Nat} (h : offsetFrom? target before es = some offset) :
    ∃ front range back, es = front ++ (.registers, range) :: back ∧ range.contains target = true ∧
      offset = before + byteCount front + (target.offset.toNat - range.offset.toNat) := by
  induction es generalizing before with
  | nil => cases h
  | cons e rest ih =>
    rw [offsetFrom?] at h
    split at h
    · rename_i he
      refine ⟨[], e.2, rest, ?_, he.2, (Option.some.inj h).symm⟩
      rw [← he.1, List.nil_append]
    · obtain ⟨front, range, back, rfl, hc, rfl⟩ := ih h
      refine ⟨e :: front, range, back, rfl, hc, ?_⟩
      rw [byteCount, Nat.add_assoc before]

theorem mem_extents {e : Extent} :
    e ∈ m.extents ↔ ∃ r ∈ m.references, r.artifact = e.1 ∧ e.2 ∈ r.ranges := by
  rw [extents, List.mem_flatMap]
  refine exists_congr fun r => and_congr_right fun _ => ?_
  rw [List.mem_map]
  constructor
  · rintro ⟨range, hrange, rfl⟩
    exact ⟨rfl, hrange⟩
  · rintro ⟨hkind, hrange⟩
    exact ⟨e.2, hrange, Prod.ext hkind rfl⟩

/-- A register is found where it is carried. -/
theorem exists_offsetOf?_iff : (∃ offset, m.offsetOf? id = some offset) ↔ m.Carries id := by
  rw [offsetOf?, exists_offsetFrom?_iff]
  simp only [mem_extents, Register.contains_range_iff]
  constructor
  · rintro ⟨e, ⟨r, hr, hkind, hrange⟩, hregisters, hin⟩
    exact ⟨r, hr, hkind.trans hregisters, e.2, hrange, hin⟩
  · rintro ⟨r, hr, hkind, range, hrange, hin⟩
    exact ⟨(.registers, range), ⟨r, hr, hkind, hrange⟩, rfl, hin⟩

theorem offsetOf?_eq_none_iff : m.offsetOf? id = none ↔ ¬m.Carries id := by
  rw [← exists_offsetOf?_iff, Option.eq_none_iff_forall_ne_some, not_exists]

theorem size_bytesAt {as : Artifacts} (h : ∀ e ∈ es, as.Has e) : (as.bytesAt es).size = byteCount es := by
  induction es with
  | nil => rfl
  | cons e rest ih =>
    obtain ⟨he, hrest⟩ := List.forall_mem_cons.mp h
    rw [Artifacts.bytesAt, ByteArray.size_append, Artifacts.size_slice he, ih hrest, byteCount]

/-- A register is found behind the bytes of some extents, in a range that starts no later than the register
does. All of these bytes are in the payload. -/
theorem Logs.exists_front {as : Artifacts} {event : Event} {offset : Nat} (h : m.Logs as event)
    (hoffset : m.offsetOf? id = some offset) :
    ∃ front range back, m.extents = front ++ (.registers, range) :: back ∧
      range.offset.toNat ≤ id.range.offset.toNat ∧
      offset + range.offset.toNat = byteCount front + id.range.offset.toNat ∧
      byteCount front + range.length.toNat ≤ m.payload.size := by
  obtain ⟨front, range, back, hsplit, hc, rfl⟩ := of_offsetFrom?_eq_some hoffset
  obtain ⟨hlo, -⟩ := id.of_contains_range hc
  refine ⟨front, range, back, hsplit, hlo, by omega, ?_⟩
  obtain hnone | ⟨hall, hpayload⟩ := h.of_references
  · rw [extents, hnone] at hsplit
    exact absurd hsplit (by simp)
  · rw [hpayload, size_bytesAt hall, hsplit, byteCount_append, byteCount, ← Nat.add_assoc]
    exact Nat.le_add_right _ _

/-- Where a register is found, there is a snapshot. -/
theorem Logs.exists_snapshot {as : Artifacts} {event : Event} {offset : Nat} (h : m.Logs as event)
    (hoffset : m.offsetOf? id = some offset) : ∃ rs, as.snapshot = some rs := by
  obtain ⟨hin, hslice⟩ := h.of_offsetOf? hoffset
  have hsize := congrArg ByteArray.size hslice
  rw [Bytes.size_slice hin] at hsize
  cases hrs : as.snapshot with
  | some rs => exact ⟨rs, rfl⟩
  | none =>
    have hempty : as.contentOf .registers = ByteArray.empty := by
      rw [Artifacts.contentOf, Artifacts.find?, hrs]
      rfl
    rw [hempty] at hsize
    cases id <;> cases hsize

end Measurement

namespace PcrReplay

variable {replay : PcrReplay} {id : Register} {location : RegisterLocation}

/-- A register is located if it is found in a measurement. -/
theorem exists_locate?_iff : (∃ location, replay.locate? id = some location) ↔
    ∃ m ∈ replay.measurements, ∃ offset, m.offsetOf? id = some offset := by
  rw [← Option.isSome_iff_exists, locate?, List.findSome?_isSome_iff]
  conv_rhs => rw [← List.zipIdx_map_fst 0 replay.measurements]
  simp only [List.mem_map, Option.isSome_map, Option.isSome_iff_exists]
  constructor
  · rintro ⟨indexed, hmem, hfound⟩
    exact ⟨indexed.1, ⟨indexed, hmem, rfl⟩, hfound⟩
  · rintro ⟨m, ⟨indexed, hmem, rfl⟩, hfound⟩
    exact ⟨indexed, hmem, hfound⟩

/-- In the replay of a machine, a register is located if, and only if, a measurement carries it. The location
is in the first measurement that does. It has the width of the register and lies within the payload, which has
there what reading the register's range from the snapshot gives. The offset is that of the register behind the
bytes of the extents in front, in a range that starts no later than the register does. -/
theorem locate?_carries {machine : Machine} {pcr : UInt8} {alg : Algorithm}
    (hreplay : ofMachine machine pcr alg = .ok replay) (id : Register) :
    ((∃ location, replay.locate? id = some location) ↔ ∃ m ∈ replay.measurements, m.Carries id) ∧
    ∀ location, replay.locate? id = some location →
      location.id = id ∧ location.width = id.width ∧
      ∃ before m after, replay.measurements = before ++ m :: after ∧
        location.measurement = before.length ∧ m.Carries id ∧ (∀ other ∈ before, ¬other.Carries id) ∧
        location.offset + location.width ≤ m.payload.size ∧
        (∃ front range back, m.extents = front ++ (.registers, range) :: back ∧
          range.offset.toNat ≤ id.range.offset.toNat ∧
          location.offset + range.offset.toNat =
            Measurement.byteCount front + id.range.offset.toNat ∧
          Measurement.byteCount front + range.length.toNat ≤ m.payload.size) ∧
        ∃ rs, machine.artifacts.snapshot = some rs ∧
          (Artifact.registers rs).readRange id.range =
            .ok (Bytes.slice m.payload location.offset location.width) := by
  refine ⟨?_, fun location hlocation => ?_⟩
  · simp only [exists_locate?_iff, Measurement.exists_offsetOf?_iff]
  obtain ⟨tpm, locality, -, -, -, -, -, hlogs⟩ := ofMachine_eq_ok_iff.mp hreplay
  obtain ⟨rfl, before, m, after, h, hbefore⟩ := locates_of_locate? hlocation
  have hmem : m ∈ replay.measurements := by
    rw [h.measurements_eq]
    exact List.mem_append_right before List.mem_cons_self
  obtain ⟨event, -, hlog⟩ := exists_logs_of_mem hlogs hmem
  obtain ⟨hin, hslice⟩ := hlog.of_offsetOf? h.offset_eq
  obtain ⟨rs, hrs⟩ := hlog.exists_snapshot h.offset_eq
  have hcontent : machine.artifacts.contentOf .registers = rs.layout := by
    rw [Artifacts.contentOf, Artifacts.find?, hrs]
    rfl
  have hfirst : ∀ other ∈ before, ¬other.Carries location.id :=
    fun other hother => Measurement.offsetOf?_eq_none_iff.mp (hbefore other hother)
  rw [h.width_eq]
  refine ⟨rfl, rfl, before, m, after, h.measurements_eq, h.index_eq,
    Measurement.exists_offsetOf?_iff.mp ⟨_, h.offset_eq⟩, hfirst, hin, hlog.exists_front h.offset_eq,
    rs, hrs, ?_⟩
  rw [hslice, hcontent]
  exact location.id.readRange_range rs

/-- A machine that measures a byte, and then bytes of the image with the last two slots of the snapshot. -/
def measuresSlots : Machine :=
  { artifacts :=
      { image := some ⟨⟨#[0xA0, 0xA1, 0xA2]⟩, by decide⟩, snapshot := some { txtErrorCode := some 5 } }
    tpm := some Tpm.fresh
    flow := some (.mk "slots" [
      .static [.initTpm 3, .extend 0 (.bytes ⟨#[1]⟩),
        .extend 0 (.references [⟨⟨.biosImage, none⟩, [⟨1, 2⟩]⟩, ⟨⟨.registers, none⟩, [⟨8, 16⟩]⟩])]]) }

/-- The register is located in the second measurement, behind two bytes of the image and a slot. -/
theorem locate?_carries_measuresSlots :
    let run := (Run.ofMachine measuresSlots).next.1.next.1
    run.status = .finished ∧ ∃ replay m, ofMachine run.machine 0 .sha1 = .ok replay ∧
      replay.locate? .txtErrorCode = some ⟨.txtErrorCode, 1, 10, 4⟩ ∧
      replay.measurements[1]? = some m ∧ m.Carries .txtErrorCode ∧ 14 ≤ m.payload.size := by
  intro run
  let replay := (ofMachine run.machine 0 .sha1).toOption.get (by decide +kernel)
  have hreplay : ofMachine run.machine 0 .sha1 = .ok replay := eq_ok_toOption_get _
  have hlocation : replay.locate? .txtErrorCode = some ⟨.txtErrorCode, 1, 10, 4⟩ := by decide +kernel
  obtain ⟨-, hfound⟩ := locate?_carries hreplay .txtErrorCode
  obtain ⟨-, -, before, m, after, hms, hindex, hcarries, -, hin, -⟩ := hfound _ hlocation
  have hm : replay.measurements[1]? = some m := by
    rw [hms, show 1 = before.length from hindex, List.getElem?_append_right (Nat.le_refl _), Nat.sub_self]
    rfl
  exact ⟨by decide +kernel, replay, m, hreplay, hlocation, hm, hcarries, hin⟩

end PcrReplay

end MeasuredBoot
