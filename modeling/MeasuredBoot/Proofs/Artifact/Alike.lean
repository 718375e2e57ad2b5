import MeasuredBoot.Proofs.Artifact.Extents
import MeasuredBoot.Proofs.Register.Layout

/-!
# Artifacts that are alike

Artifacts are alike if they have the same image and the same registers are present, with any values. Of
such artifacts a flow finds the same data to be measured, though the bytes may differ:

* `Artifacts.Alike.holds`, `Artifacts.Alike.actions`: conditions and the actions of a step;
* `Artifacts.Alike.locate`: the data that a source stands for;
* `Artifacts.Alike.fetch`: the bytes of the data are as many.
-/

namespace MeasuredBoot

theorem DataSource.fetch_eq_ok_iff {source : DataSource} {as : Artifacts} {data : Data}
    {bytes : ByteArray} :
    source.fetch as = .ok (data, bytes) ↔ source.locate as = .ok data ∧ data.bytes as = .ok bytes := by
  simp only [fetch, bind_eq_ok_iff, mapError_eq_ok_iff]
  constructor
  · rintro ⟨located, hlocated, read, hread, h⟩
    cases h
    exact ⟨hlocated, hread⟩
  · rintro ⟨hlocated, hread⟩
    exact ⟨data, hlocated, bytes, hread, rfl⟩

/-- Which registers are present. -/
def Registers.present (rs : Registers) (id : Register) : Bool := (rs.get? id).isSome

namespace Artifacts

/-- The same image, and snapshots in which the same registers are present. -/
structure Alike (as other : Artifacts) : Prop where
  image_eq : as.image = other.image
  present_eq : as.snapshot.map Registers.present = other.snapshot.map Registers.present

namespace Alike

variable {as other : Artifacts}

theorem symm (h : as.Alike other) : other.Alike as := ⟨h.image_eq.symm, h.present_eq.symm⟩

theorem snapshot_cases (h : as.Alike other) :
    (as.snapshot = none ∧ other.snapshot = none) ∨ ∃ rs rs', as.snapshot = some rs ∧
      other.snapshot = some rs' ∧ ∀ id, (rs.get? id).isSome = (rs'.get? id).isSome := by
  have heq := h.present_eq
  cases hs : as.snapshot with
  | none =>
    rw [hs, Option.map_none] at heq
    exact .inl ⟨rfl, Option.map_eq_none_iff.mp heq.symm⟩
  | some rs =>
    rw [hs, Option.map_some] at heq
    obtain ⟨rs', hs', hpresent⟩ := Option.map_eq_some_iff.mp heq.symm
    exact .inr ⟨rs, rs', rfl, hs', fun id => (congrFun hpresent id).symm⟩

theorem sameSizes (h : as.Alike other) : as.SameSizes other := by
  intro kind
  cases kind with
  | biosImage => simp only [contentOf, find?, h.image_eq, and_self]
  | registers =>
    obtain ⟨hs, hs'⟩ | ⟨rs, rs', hs, hs', -⟩ := h.snapshot_cases
    · simp only [contentOf, find?, hs, hs', and_self]
    · simp only [contentOf, find?, hs, hs', Option.map_some, Option.isSome_some, true_and]
      exact rs.size_layout.trans rs'.size_layout.symm

/-! ## Conditions and data -/

theorem holds (h : as.Alike other) (c : Condition) : c.holds as = c.holds other := by
  have himage {α : Type} (find : BiosImage → Except SourceError α) :
      Condition.imageHas as find = Condition.imageHas other find := by
    rw [Condition.imageHas, Condition.imageHas, h.image_eq]
  induction c with
  | fitPresent => exact himage _
  | embeddedFirmwarePresent => exact himage _
  | vendorVersionPresent => exact himage _
  | registerPresent id =>
    rw [Condition.holds, Condition.holds]
    obtain ⟨hs, hs'⟩ | ⟨rs, rs', hs, hs', hpresent⟩ := h.snapshot_cases
    · rw [hs, hs']
    · rw [hs, hs']
      exact hpresent id
  | not c ih => rw [Condition.holds, Condition.holds, ih]
  | always value => rfl

theorem locate_register (h : as.Alike other) (id : Register) : id.locate as = id.locate other := by
  rw [Register.locate, Register.locate, getRegisters, getRegisters]
  obtain ⟨hs, hs'⟩ | ⟨rs, rs', hs, hs', hpresent⟩ := h.snapshot_cases
  · rw [hs, hs']
  · have hid := hpresent id
    rw [hs, hs']
    simp only [Except.mapError, ok_bind]
    cases hr : rs.get? id with
    | none =>
      rw [hr] at hid
      rw [Option.isNone_iff_eq_none.mp (Option.isSome_eq_false_iff.mp hid.symm)]
    | some value =>
      rw [hr] at hid
      obtain ⟨value', hr'⟩ := Option.isSome_iff_exists.mp hid.symm
      rw [hr']

theorem locate_probe (h : as.Alike other) (p : Probe) : p.locate as = p.locate other := by
  have hp (image : BiosImage) : p.locateIn image as = p.locateIn image other := by
    cases p with
    | pcr0Data => simp only [Probe.locateIn, h.locate_register]
    | _ => rfl
  simp only [Probe.locate, getImage, h.image_eq, hp]

theorem locate (h : as.Alike other) (source : DataSource) : source.locate as = source.locate other := by
  cases source with
  | bytes bs => rfl
  | references refs => rfl
  | register id => simp only [DataSource.locate, h.locate_register]
  | probe p => simp only [DataSource.locate, h.locate_probe]

/-- A step does the same. -/
theorem actions (h : as.Alike other) (step : Step) : step.actions as = step.actions other := by
  match step with
  | .static actions => rfl
  | .guarded condition inner => rw [Step.actions, Step.actions, h.holds, h.actions inner]
  | .platform p =>
    rw [Step.actions, Step.actions]
    cases p with
    | biosDirectory => simp only [PlatformStep.actions, h.locate_probe]
    | _ => rfl

/-! ## Bytes of data -/

/-- Data that is not converted has as many bytes. -/
theorem exists_bytes (h : as.Alike other) {d : Data} {bytes : ByteArray} (hplain : d.converter = none)
    (hbytes : d.bytes as = .ok bytes) :
    ∃ bytes', d.bytes other = .ok bytes' ∧ bytes'.size = bytes.size := by
  obtain ⟨content, converter⟩ := d
  obtain rfl : converter = none := hplain
  obtain ⟨raw, hraw, hpure⟩ := exists_ok_of_bind hbytes
  cases hpure
  cases content with
  | forced given => exact ⟨given, rfl, congrArg ByteArray.size (Except.ok.inj hraw)⟩
  | references refs =>
    obtain ⟨native, hnative, hall, rfl⟩ := References.bytes_eq_ok_iff.mp hraw
    refine ⟨_, ?_, (h.sameSizes.size_bytesAt _ hall).symm⟩
    show (refs.bytes other >>= pure) = _
    rw [References.bytes_of_resolve h.sameSizes hnative hall]
    rfl

theorem converter_of_locate {source : DataSource} {d : Data} (hd : source.locate as = .ok d) :
    d.converter = none := by
  cases source with
  | bytes bs =>
    cases hd
    rfl
  | references refs =>
    cases hd
    rfl
  | register id =>
    obtain ⟨_, -, hd⟩ := exists_ok_of_bind hd
    cases hd
    rfl
  | probe p =>
    obtain ⟨_, -, hd⟩ := exists_ok_of_bind hd
    cases hd
    rfl

/-- The data of a source, not converted, and as many bytes. -/
theorem fetch (h : as.Alike other) {source : DataSource} {d : Data} {bytes : ByteArray}
    (hfetch : source.fetch as = .ok (d, bytes)) :
    d.converter = none ∧ ∃ bytes', source.fetch other = .ok (d, bytes') ∧ bytes'.size = bytes.size := by
  obtain ⟨hlocate, hbytes⟩ := DataSource.fetch_eq_ok_iff.mp hfetch
  have hplain := converter_of_locate hlocate
  obtain ⟨bytes', hbytes', hsize⟩ := h.exists_bytes hplain hbytes
  exact ⟨hplain, bytes', DataSource.fetch_eq_ok_iff.mpr ⟨h.locate source ▸ hlocate, hbytes'⟩, hsize⟩

/-- Data that cannot be fetched from one cannot be fetched from the other. -/
theorem fetch_error (h : as.Alike other) {source : DataSource} {e : BootError}
    (hfetch : source.fetch as = .error e) : ∃ e', source.fetch other = .error e' := by
  cases hother : source.fetch other with
  | error e' => exact ⟨e', rfl⟩
  | ok fetched =>
    obtain ⟨-, bytes, hok, -⟩ := h.symm.fetch hother
    cases hok.symm.trans hfetch

end Alike

end Artifacts

end MeasuredBoot
