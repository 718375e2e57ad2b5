import MeasuredBoot.Recovery.Replay
import MeasuredBoot.Proofs.Bytes.Words
import MeasuredBoot.Proofs.Results

/-!
# References by extents

References that were resolved to offsets come down to a list of extents: ranges of the artifact of a
kind. Their bytes are the slices of the artifacts' contents (`Artifacts.bytesAt`), as long as these
have them (`Artifacts.Has`).

* `References.bytes_eq_ok_iff`: the bytes of references are those at their extents;
* `References.resolve_congr`: which extents these are goes by the sizes of the artifacts only.
-/

namespace MeasuredBoot

/-- A range of the artifact of a kind. -/
abbrev Extent := ArtifactKind × Range

namespace Artifacts

/-- The bytes of the artifact of a kind, none if there is no such artifact. -/
def contentOf (as : Artifacts) (kind : ArtifactKind) : ByteArray :=
  match as.find? kind with
  | some a => a.content
  | none => ByteArray.empty

/-- The bytes of an extent. -/
def slice (as : Artifacts) (e : Extent) : ByteArray :=
  Bytes.slice (as.contentOf e.1) e.2.offset.toNat e.2.length.toNat

/-- The bytes of some extents, one after the other. -/
def bytesAt (as : Artifacts) : List Extent → ByteArray
  | [] => ByteArray.empty
  | e :: rest => as.slice e ++ as.bytesAt rest

/-- The artifacts have all bytes of an extent. -/
def Has (as : Artifacts) (e : Extent) : Prop :=
  e.2.offset.toNat + e.2.length.toNat ≤ (as.contentOf e.1).size

/-- Artifacts of the same kinds and sizes. -/
def SameSizes (as other : Artifacts) : Prop :=
  ∀ kind, (as.find? kind).isSome = (other.find? kind).isSome ∧
    (as.contentOf kind).size = (other.contentOf kind).size

theorem get_eq_ok_iff {as : Artifacts} {kind : ArtifactKind} {a : Artifact} :
    as.get kind = .ok a ↔ as.find? kind = some a := by
  rw [get]
  cases as.find? kind with
  | none => exact ⟨nofun, nofun⟩
  | some b =>
    exact ⟨fun h => congrArg some (Except.ok.inj h), fun h => congrArg Except.ok (Option.some.inj h)⟩

theorem contentOf_of_find? {as : Artifacts} {kind : ArtifactKind} {a : Artifact}
    (h : as.find? kind = some a) : as.contentOf kind = a.content := by
  rw [contentOf, h]

theorem kind_of_find? {as : Artifacts} {kind : ArtifactKind} {a : Artifact}
    (h : as.find? kind = some a) : a.kind = kind := by
  cases kind <;> obtain ⟨_, -, rfl⟩ := Option.map_eq_some_iff.mp h <;> rfl

theorem bytesAt_append (as : Artifacts) (xs ys : List Extent) :
    as.bytesAt (xs ++ ys) = as.bytesAt xs ++ as.bytesAt ys := by
  induction xs with
  | nil => exact ByteArray.empty_append.symm
  | cons e rest ih => rw [List.cons_append, bytesAt, bytesAt, ih, ByteArray.append_assoc]

theorem size_slice {as : Artifacts} {e : Extent} (h : as.Has e) :
    (as.slice e).size = e.2.length.toNat := Bytes.size_slice h

theorem SameSizes.has {as other : Artifacts} (h : as.SameSizes other) {e : Extent} (he : as.Has e) :
    other.Has e := by
  rwa [Has, ← (h e.1).2]

/-- Artifacts of the same sizes have as many bytes at the same extents. -/
theorem SameSizes.size_bytesAt {as other : Artifacts} (h : as.SameSizes other) (es : List Extent)
    (hes : ∀ e ∈ es, as.Has e) : (as.bytesAt es).size = (other.bytesAt es).size := by
  induction es with
  | nil => rfl
  | cons e rest ih =>
    obtain ⟨he, hrest⟩ := List.forall_mem_cons.mp hes
    rw [bytesAt, bytesAt, ByteArray.size_append, ByteArray.size_append, size_slice he,
      size_slice (h.has he), ih hrest]

end Artifacts

/-! ## Bytes of references -/

/-- Where a range is goes by the kind and the size of the artifact only. -/
theorem AddressMapper.resolveRange_congr {a b : Artifact} (hkind : a.kind = b.kind) (hsize : a.size = b.size)
    (mapper : AddressMapper) (range : Range) : mapper.resolveRange a range = mapper.resolveRange b range := by
  rw [resolveRange, resolveRange, hsize, hkind]

theorem Artifact.readRange_eq_ok_iff {a : Artifact} {r : Range} {bytes : ByteArray} :
    a.readRange r = .ok bytes ↔ r.offset.toNat + r.length.toNat ≤ a.content.size ∧
      bytes = Bytes.slice a.content r.offset.toNat r.length.toNat := by
  rw [readRange, size]
  by_cases h : r.offset.toNat + r.length.toNat ≤ a.content.size
  · rw [if_pos h]
    exact ⟨fun hok => ⟨h, (Except.ok.inj hok).symm⟩, fun ⟨_, hbytes⟩ => hbytes ▸ rfl⟩
  · rw [if_neg h]
    exact ⟨nofun, fun hok => absurd hok.1 h⟩

namespace Reference

/-- The ranges of a reference with their artifact. -/
def extents (r : Reference) : List Extent := r.ranges.map fun range => (r.artifact, range)

/-- Reading ranges one after the other. -/
theorem foldlM_readRange_eq_ok_iff {as : Artifacts} {kind : ArtifactKind} {a : Artifact}
    (ha : as.find? kind = some a) (ranges : Ranges) (out bytes : ByteArray) :
    ranges.foldlM (fun out range => return out ++ (← a.readRange range)) out = .ok bytes ↔
      (∀ range ∈ ranges, as.Has (kind, range)) ∧
        bytes = out ++ as.bytesAt (ranges.map fun range => (kind, range)) := by
  induction ranges generalizing out with
  | nil =>
    rw [List.foldlM_nil, List.map_nil, Artifacts.bytesAt, ByteArray.append_empty]
    exact ⟨fun h => ⟨nofun, (Except.ok.inj h).symm⟩, fun h => congrArg Except.ok h.2.symm⟩
  | cons range rest ih =>
    have hhas : as.Has (kind, range) ↔ range.offset.toNat + range.length.toNat ≤ a.content.size := by
      rw [Artifacts.Has, Artifacts.contentOf_of_find? ha]
    have hslice : as.slice (kind, range) =
        Bytes.slice a.content range.offset.toNat range.length.toNat := by
      rw [Artifacts.slice, Artifacts.contentOf_of_find? ha]
    rw [List.foldlM_cons, bind_eq_ok_iff, List.map_cons, Artifacts.bytesAt, hslice,
      List.forall_mem_cons, hhas]
    constructor
    · rintro ⟨next, hnext, hrest⟩
      obtain ⟨read, hread, hpure⟩ := exists_ok_of_bind hnext
      cases hpure
      obtain ⟨hin, rfl⟩ := Artifact.readRange_eq_ok_iff.mp hread
      obtain ⟨hall, rfl⟩ := (ih _).mp hrest
      exact ⟨⟨hin, hall⟩, ByteArray.append_assoc⟩
    · rintro ⟨⟨hin, hall⟩, rfl⟩
      refine ⟨_, ?_, (ih _).mpr ⟨hall, ByteArray.append_assoc.symm⟩⟩
      rw [Artifact.readRange_eq_ok_iff.mpr ⟨hin, rfl⟩]
      rfl

/-- The bytes of a reference are those at its extents. -/
theorem bytes_eq_ok_iff {r : Reference} {as : Artifacts} {bytes : ByteArray} :
    r.bytes as = .ok bytes ↔ ∃ native, r.resolve as = .ok native ∧
      (∀ e ∈ native.extents, as.Has e) ∧ bytes = as.bytesAt native.extents := by
  simp only [Reference.bytes, resolve, bind_eq_ok_iff]
  constructor
  · rintro ⟨a, ha, ranges, hranges, hread⟩
    have ha := Artifacts.get_eq_ok_iff.mp ha
    obtain ⟨hall, rfl⟩ := (foldlM_readRange_eq_ok_iff ha _ _ _).mp hread
    refine ⟨⟨⟨r.artifact, none⟩, ranges⟩, ⟨ranges, hranges, rfl⟩, ?_, ByteArray.empty_append⟩
    exact List.forall_mem_map.mpr hall
  · rintro ⟨native, ⟨ranges, hranges, hnative⟩, hall, rfl⟩
    cases hnative
    obtain ⟨a, ha, -⟩ := exists_ok_of_bind hranges
    have hfound := Artifacts.get_eq_ok_iff.mp ha
    refine ⟨a, ha, ranges, hranges, (foldlM_readRange_eq_ok_iff hfound _ _ _).mpr ⟨?_, ?_⟩⟩
    · exact List.forall_mem_map.mp hall
    · exact ByteArray.empty_append.symm

/-- Where the bytes of a reference are goes by the sizes of the artifacts only. -/
theorem resolve_congr {as other : Artifacts} (h : as.SameSizes other) (r : Reference) :
    r.resolve as = r.resolve other := by
  obtain ⟨hsome, hsize⟩ := h r.artifact
  have hranges : r.nativeRanges as = r.nativeRanges other := by
    rw [nativeRanges, nativeRanges, Artifacts.get, Artifacts.get]
    cases ha : as.find? r.artifact with
    | none =>
      rw [ha] at hsome
      rw [Option.isNone_iff_eq_none.mp (Option.isSome_eq_false_iff.mp hsome.symm)]
    | some a =>
      rw [ha] at hsome
      obtain ⟨b, hb⟩ := Option.isSome_iff_exists.mp hsome.symm
      rw [Artifacts.contentOf_of_find? ha, Artifacts.contentOf_of_find? hb] at hsize
      have hkind := (Artifacts.kind_of_find? ha).trans (Artifacts.kind_of_find? hb).symm
      have hrange (mapper : AddressMapper) : mapper.resolveRange a = mapper.resolveRange b :=
        funext (mapper.resolveRange_congr hkind hsize)
      rw [hb]
      cases r.mapper with
      | none => rfl
      | some mapper =>
        show (do return Ranges.sort (← r.ranges.mapM (mapper.resolveRange a))) = _
        rw [hrange]
        rfl
  rw [resolve, resolve, hranges]

end Reference

namespace References

/-- The extents of references by offsets. -/
def extents (rs : References) : List Extent := rs.flatMap Reference.extents

theorem extents_cons (r : Reference) (rs : References) :
    extents (r :: rs) = r.extents ++ rs.extents := List.flatMap_cons

theorem foldlM_bytes_eq_ok_iff {as : Artifacts} (rs : References) (out bytes : ByteArray) :
    rs.foldlM (fun out r => return out ++ (← r.bytes as)) out = .ok bytes ↔
      ∃ native, rs.resolve as = .ok native ∧ (∀ e ∈ native.extents, as.Has e) ∧
        bytes = out ++ as.bytesAt native.extents := by
  induction rs generalizing out with
  | nil =>
    rw [List.foldlM_nil]
    constructor
    · intro h
      exact ⟨[], rfl, nofun, (Except.ok.inj h).symm.trans ByteArray.append_empty.symm⟩
    · rintro ⟨native, hnative, -, rfl⟩
      cases hnative
      exact congrArg Except.ok ByteArray.append_empty.symm
  | cons r rest ih =>
    simp only [List.foldlM_cons, bind_eq_ok_iff, resolve, List.mapM_cons]
    constructor
    · rintro ⟨next, ⟨read, hread, hpure⟩, hrest⟩
      cases hpure
      obtain ⟨native, hnative, hall, rfl⟩ := Reference.bytes_eq_ok_iff.mp hread
      obtain ⟨natives, hnatives, halls, rfl⟩ := (ih _).mp hrest
      refine ⟨native :: natives, ⟨native, hnative, natives, hnatives, rfl⟩, ?_, ?_⟩
      · exact List.forall_mem_append.mpr ⟨hall, halls⟩
      · rw [extents_cons, Artifacts.bytesAt_append, ByteArray.append_assoc]
    · rintro ⟨_, ⟨native, hnative, natives, hnatives, hpure⟩, hall, rfl⟩
      cases hpure
      obtain ⟨hhead, hrest⟩ := List.forall_mem_append.mp hall
      refine ⟨_, ⟨_, Reference.bytes_eq_ok_iff.mpr ⟨native, hnative, hhead, rfl⟩, rfl⟩,
        (ih _).mpr ⟨natives, hnatives, hrest, ?_⟩⟩
      rw [extents_cons, Artifacts.bytesAt_append, ByteArray.append_assoc]

/-- The bytes of references are those at their extents. -/
theorem bytes_eq_ok_iff {rs : References} {as : Artifacts} {bytes : ByteArray} :
    rs.bytes as = .ok bytes ↔ ∃ native, rs.resolve as = .ok native ∧
      (∀ e ∈ native.extents, as.Has e) ∧ bytes = as.bytesAt native.extents := by
  rw [References.bytes, foldlM_bytes_eq_ok_iff]
  simp only [ByteArray.empty_append]

/-- Where the bytes of references are goes by the sizes of the artifacts only. -/
theorem resolve_congr {as other : Artifacts} (h : as.SameSizes other) (rs : References) :
    rs.resolve as = rs.resolve other := by
  rw [resolve, resolve, show (fun r : Reference => r.resolve as) = (·.resolve other) from
    funext (Reference.resolve_congr h)]

/-- References with bytes have as many, at the same extents, in artifacts of the same sizes. -/
theorem bytes_of_resolve {as other : Artifacts} {rs native : References} (h : as.SameSizes other)
    (hresolve : rs.resolve as = .ok native) (hall : ∀ e ∈ native.extents, as.Has e) :
    rs.bytes other = .ok (other.bytesAt native.extents) :=
  bytes_eq_ok_iff.mpr ⟨native, resolve_congr h rs ▸ hresolve, fun e he => h.has (hall e he), rfl⟩

end References

end MeasuredBoot
