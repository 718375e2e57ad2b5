import MeasuredBoot.Proofs.Artifact.Extents
import MeasuredBoot.Proofs.Register.Layout

/-!
# Registers among the extents of a measurement

Where the bytes of a register stand in a payload is counted out from the extents that come before.

* `Measurement.of_offsetFrom?`: the payload has the register at the offset that was found;
* `Artifacts.Differ`: artifacts that differ in the bytes of one register;
* `Artifacts.Differ.bytesAt_of_no_mention`, `Artifacts.Differ.bytesAt_of_one_mention`: what that does to
  a payload that has no bytes of the register, or has them once.
-/

namespace MeasuredBoot

namespace Range

/-- Whether there is an offset that both ranges stand for. -/
def meets (a b : Range) : Bool := max a.offset.toNat b.offset.toNat < min a.stop b.stop

theorem contains_iff {a b : Range} :
    a.contains b = true ↔ a.offset.toNat ≤ b.offset.toNat ∧ b.stop ≤ a.stop := by
  rw [contains, Bool.and_eq_true, decide_eq_true_iff, decide_eq_true_iff, UInt64.le_iff_toNat_le]

end Range

namespace Register

theorem stop_range (id : Register) :
    id.range.stop = id.range.offset.toNat + id.width := by
  cases id <;> decide

theorem width_pos (id : Register) : 0 < id.width := by
  cases id <;> decide

/-- A range that contains that of a register stops after it. -/
theorem of_contains_range {id : Register} {range : Range} (h : range.contains id.range = true) :
    range.offset.toNat ≤ id.range.offset.toNat ∧
      id.range.offset.toNat + id.width ≤ range.offset.toNat + range.length.toNat := by
  obtain ⟨hlo, hhi⟩ := Range.contains_iff.mp h
  rw [id.stop_range, Range.stop] at hhi
  omega

end Register

/-- Whether an extent has bytes of a range of the register snapshot. -/
def Extent.mentions (target : Range) (e : Extent) : Bool := e.1 = .registers && e.2.meets target

namespace Measurement

/-! ## Offsets -/

theorem offsetFrom?_eq_map (target : Range) (before : Nat) (es : List Extent) :
    offsetFrom? target before es = (offsetFrom? target 0 es).map (before + ·) := by
  induction es generalizing before with
  | nil => rfl
  | cons e rest ih =>
    obtain ⟨kind, range⟩ := e
    rw [offsetFrom?, offsetFrom?]
    split
    · rw [Option.map_some, Nat.zero_add]
    · rw [ih, ih (0 + range.length.toNat), Option.map_map]
      congr 1
      funext offset
      simp only [Function.comp_apply]
      omega

/-- A range that is found is in the first extent that contains it. -/
theorem offsetFrom?_cons (target : Range) (e : Extent) (rest : List Extent) :
    offsetFrom? target 0 (e :: rest) =
      if e.1 = .registers ∧ e.2.contains target then some (target.offset.toNat - e.2.offset.toNat)
      else (offsetFrom? target 0 rest).map (e.2.length.toNat + ·) := by
  rw [offsetFrom?, Nat.zero_add, Nat.zero_add, offsetFrom?_eq_map target e.2.length.toNat]

/-- A range that is found is contained in an extent. -/
theorem exists_of_offsetFrom? {target : Range} {es : List Extent} {offset : Nat}
    (h : offsetFrom? target 0 es = some offset) :
    ∃ e ∈ es, e.1 = .registers ∧ e.2.contains target = true := by
  induction es generalizing offset with
  | nil => cases h
  | cons e rest ih =>
    rw [offsetFrom?_cons] at h
    split at h
    · rename_i hc
      exact ⟨e, List.mem_cons_self, hc⟩
    · obtain ⟨_, hinner, -⟩ := Option.map_eq_some_iff.mp h
      obtain ⟨e', he', hc⟩ := ih hinner
      exact ⟨e', List.mem_cons_of_mem e he', hc⟩

variable {as : Artifacts} {id : Register} {es : List Extent} {offset : Nat}

/-- The payload has the bytes of the register at the offset that was found. -/
theorem of_offsetFrom? (hes : ∀ e ∈ es, as.Has e) (h : offsetFrom? id.range 0 es = some offset) :
    offset + id.width ≤ (as.bytesAt es).size ∧
      Bytes.slice (as.bytesAt es) offset id.width =
        Bytes.slice (as.contentOf .registers) id.range.offset.toNat id.width := by
  induction es generalizing offset with
  | nil => cases h
  | cons e rest ih =>
    obtain ⟨he, hrest⟩ := List.forall_mem_cons.mp hes
    have hsize := Artifacts.size_slice he
    rw [offsetFrom?_cons] at h
    rw [Artifacts.bytesAt, ByteArray.size_append]
    split at h
    · rename_i hc
      obtain ⟨hlo, hhi⟩ := id.of_contains_range hc.2
      obtain rfl := Option.some.inj h
      have hin : id.range.offset.toNat - e.2.offset.toNat + id.width ≤ (as.slice e).size := by omega
      refine ⟨by omega, ?_⟩
      rw [Bytes.slice_append_left hin, Artifacts.slice, Bytes.slice_slice he (by omega), hc.1]
      congr 1
      omega
    · obtain ⟨inner, hinner, rfl⟩ := Option.map_eq_some_iff.mp h
      obtain ⟨hin, hslice⟩ := ih hrest hinner
      refine ⟨by omega, ?_⟩
      rw [← hsize, Bytes.slice_append_right hin, hslice]

end Measurement

namespace Artifacts

/-! ## Artifacts that differ in a register -/

/-- The same artifacts, except that the range of a register has other bytes. -/
structure Differ (id : Register) (patch : ByteArray) (as other : Artifacts) : Prop where
  image : other.contentOf .biosImage = as.contentOf .biosImage
  registers : other.contentOf .registers =
    Bytes.splice (as.contentOf .registers) id.range.offset.toNat patch
  size_eq : patch.size = id.width
  size_le : id.range.offset.toNat + id.width ≤ (as.contentOf .registers).size

theorem size_contentOf_registers_le (as : Artifacts) : (as.contentOf .registers).size ≤ 24 := by
  rw [contentOf]
  split
  · rename_i a ha
    obtain ⟨rs, -, rfl⟩ := Option.map_eq_some_iff.mp ha
    exact Nat.le_of_eq rs.size_layout
  · exact Nat.zero_le _

/-- An extent mentions a register if it has one of its bytes. -/
theorem mentions_iff {as : Artifacts} {e : Extent} {id : Register} (he : as.Has e) :
    e.mentions id.range = true ↔ e.1 = .registers ∧
      max e.2.offset.toNat id.range.offset.toNat <
        min (e.2.offset.toNat + e.2.length.toNat) (id.range.offset.toNat + id.width) := by
  rw [Extent.mentions, Range.meets, Bool.and_eq_true, decide_eq_true_iff, decide_eq_true_iff,
    id.stop_range]
  refine and_congr_right fun hk => ?_
  -- the snapshot is so small that the stop is the sum
  have hstop : e.2.stop = e.2.offset.toNat + e.2.length.toNat := by
    have hle := as.size_contentOf_registers_le
    rw [Has, hk] at he
    rw [Range.stop, lastOffset, show UInt64.size = 18446744073709551616 from rfl]
    omega
  rw [hstop]

theorem mentions_of_contains {as : Artifacts} {e : Extent} {id : Register} (he : as.Has e)
    (hk : e.1 = .registers) (hc : e.2.contains id.range = true) : e.mentions id.range = true := by
  obtain ⟨hlo, hhi⟩ := id.of_contains_range hc
  have := id.width_pos
  exact (mentions_iff he).mpr ⟨hk, by omega⟩

namespace Differ

variable {id : Register} {patch : ByteArray} {as other : Artifacts} {e : Extent} {es : List Extent}

/-- An extent without bytes of the register. -/
theorem slice_of_no_mention (h : Differ id patch as other) (he : as.Has e)
    (hm : ¬e.mentions id.range = true) : other.slice e = as.slice e := by
  rw [mentions_iff he] at hm
  obtain ⟨kind, range⟩ := e
  cases kind with
  | biosImage => rw [slice, slice, h.image]
  | registers =>
    have hd := Nat.le_of_not_lt fun hlt => hm ⟨rfl, hlt⟩
    have hin : id.range.offset.toNat + patch.size ≤ (as.contentOf .registers).size :=
      h.size_eq ▸ h.size_le
    rw [slice, slice, h.registers]
    exact Bytes.slice_splice_of_disjoint hin he (h.size_eq ▸ hd)

/-- An extent with all bytes of the register. -/
theorem slice_of_contains (h : Differ id patch as other) (he : as.Has e) (hk : e.1 = .registers)
    (hc : e.2.contains id.range = true) :
    other.slice e = Bytes.splice (as.slice e) (id.range.offset.toNat - e.2.offset.toNat) patch := by
  obtain ⟨kind, range⟩ := e
  obtain rfl : kind = .registers := hk
  have hin : id.range.offset.toNat + patch.size ≤ (as.contentOf .registers).size := h.size_eq ▸ h.size_le
  obtain ⟨hlo, hhi⟩ := id.of_contains_range hc
  rw [slice, slice, h.registers]
  exact Bytes.slice_splice_of_within hin he hlo (h.size_eq ▸ hhi)

/-- A payload without bytes of the register. -/
theorem bytesAt_of_no_mention (h : Differ id patch as other) (hes : ∀ e ∈ es, as.Has e)
    (hm : es.countP (·.mentions id.range) = 0) : other.bytesAt es = as.bytesAt es := by
  induction es with
  | nil => rfl
  | cons e rest ih =>
    obtain ⟨he, hrest⟩ := List.forall_mem_cons.mp hes
    obtain ⟨hno, hnone⟩ := List.forall_mem_cons.mp (List.countP_eq_zero.mp hm)
    rw [bytesAt, bytesAt, h.slice_of_no_mention he hno,
      ih hrest (List.countP_eq_zero.mpr hnone)]

/-- A payload with the bytes of the register once. -/
theorem bytesAt_of_one_mention (h : Differ id patch as other) (hes : ∀ e ∈ es, as.Has e)
    (hm : es.countP (·.mentions id.range) = 1) {offset : Nat}
    (hoffset : Measurement.offsetFrom? id.range 0 es = some offset) :
    other.bytesAt es = Bytes.splice (as.bytesAt es) offset patch := by
  induction es generalizing offset with
  | nil => cases hoffset
  | cons e rest ih =>
    obtain ⟨he, hrest⟩ := List.forall_mem_cons.mp hes
    have hsize := size_slice he
    rw [Measurement.offsetFrom?_cons] at hoffset
    rw [List.countP_cons] at hm
    rw [bytesAt, bytesAt]
    split at hoffset
    · rename_i hc
      obtain ⟨hlo, hhi⟩ := id.of_contains_range hc.2
      obtain rfl := Option.some.inj hoffset
      rw [if_pos (mentions_of_contains he hc.1 hc.2)] at hm
      rw [h.slice_of_contains he hc.1 hc.2, h.bytesAt_of_no_mention hrest (by omega),
        Bytes.splice_append_left (by rw [h.size_eq]; omega)]
    · obtain ⟨inner, hinner, rfl⟩ := Option.map_eq_some_iff.mp hoffset
      -- the one mention is that of the extent that was found
      have hfound : 0 < rest.countP (·.mentions id.range) := by
        obtain ⟨e', he', hc⟩ := Measurement.exists_of_offsetFrom? hinner
        exact List.countP_pos_iff.mpr ⟨e', he', mentions_of_contains (hrest e' he') hc.1 hc.2⟩
      have hno : ¬e.mentions id.range = true := fun hyes => by
        rw [if_pos hyes] at hm
        omega
      rw [if_neg hno] at hm
      rw [h.slice_of_no_mention he hno, ih hrest hm hinner, ← hsize, Bytes.splice_append_right]
      rw [h.size_eq]
      exact (Measurement.of_offsetFrom? hrest hinner).1

end Differ

end Artifacts

end MeasuredBoot
