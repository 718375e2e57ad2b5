import Mathlib.Data.Finset.Card
import MeasuredBoot.Proofs.AddressMapper.Translation
import MeasuredBoot.Proofs.Artifact.Extents
import MeasuredBoot.Proofs.Checked
import MeasuredBoot.Proofs.Register.Layout

/-!
# Reading artifacts

An artifact is read by copying as many of its bytes as there are to the front of a buffer (`readInto`), or by ranges
that have to lie within it (`readRange`). Both go by the number of bytes of a range that exist (`available`):

* `Overwrites`: what a copy makes of a buffer, byte by byte;
* `readInto_eq`: a copy to a buffer is one of all bytes that exist;
* `readIntoChecked`, `readRangeChecked`: the same in 64-bit words, where a range is read by a copy to a new buffer;
* `readRange_exact`: which ranges are read and what is reported of the others, and no copy for a range that lies
  within the artifact is a short one.
-/

namespace MeasuredBoot.Artifact

variable {ε : Type} {a : Artifact} {r : Range} {buffer : ByteArray} {offset : UInt64}

/-- How many bytes of a range exist. -/
def available (a : Artifact) (r : Range) : Nat :=
  ((Finset.range r.length.toNat).filter fun i => r.offset.toNat + i < a.size).card

/-- The first `count` bytes of a buffer were replaced by those of `content` from `offset` on, and no others. -/
structure Overwrites (content : ByteArray) (offset : Nat) (before after : ByteArray) (count : Nat) : Prop where
  size_eq : after.size = before.size
  copied : ∀ i < count, Bytes.get after i = Bytes.get content (offset + i)
  kept : ∀ i, count ≤ i → Bytes.get after i = Bytes.get before i

/-- The bytes of a range that exist are those up to the end of the artifact. -/
theorem available_eq (a : Artifact) (r : Range) :
    a.available r = min (a.size - r.offset.toNat) r.length.toNat := by
  have hfront : ((Finset.range r.length.toNat).filter fun i => r.offset.toNat + i < a.size) =
      Finset.range (min (a.size - r.offset.toNat) r.length.toNat) := by
    ext i
    rw [Finset.mem_filter, Finset.mem_range, Finset.mem_range]
    omega
  rw [available, hfront, Finset.card_range]

/-- All bytes exist of a range that lies within the artifact. -/
theorem available_of_le (h : r.offset.toNat + r.length.toNat ≤ a.size) : a.available r = r.length.toNat := by
  rw [available_eq]
  omega

/-! ## Copies -/

/-- A copy of bytes that exist, and for which there is room in the buffer. -/
theorem overwrites_splice {content buffer : ByteArray} {offset count : Nat}
    (hcontent : offset + count ≤ content.size) (hbuffer : count ≤ buffer.size) :
    Overwrites content offset buffer (Bytes.splice buffer 0 (Bytes.slice content offset count)) count := by
  have hsize : (Bytes.slice content offset count).size = count := Bytes.size_slice hcontent
  have hin : 0 + (Bytes.slice content offset count).size ≤ buffer.size := by omega
  refine ⟨Bytes.size_splice hin, fun i hi => ?_, fun i hi => ?_⟩
  · rw [Bytes.get_splice hin, if_pos (by omega), Nat.sub_zero, Bytes.get_slice hcontent hi]
  · rw [Bytes.get_splice hin, if_neg (by omega)]

/-- A copy of no bytes leaves the buffer as it is. -/
theorem splice_slice_zero (content buffer : ByteArray) (offset : Nat) :
    Bytes.splice buffer 0 (Bytes.slice content offset 0) = buffer := by
  have hsize : (Bytes.slice content offset 0).size = 0 := by
    rw [Bytes.slice, ByteArray.size_extract]
    omega
  have hin : 0 + (Bytes.slice content offset 0).size ≤ buffer.size := by omega
  refine Bytes.ext_get (Bytes.size_splice hin) fun i _ => ?_
  rw [Bytes.get_splice hin, if_neg (by omega)]

/-- A buffer of the length of a range takes the bytes of the range that exist. -/
theorem readInto_eq (hbuffer : buffer.size = r.length.toNat) : ∃ after,
    a.readInto buffer r.offset = (after, a.available r) ∧
      Overwrites a.content r.offset.toNat buffer after (a.available r) := by
  have hcount : min buffer.size (a.size - r.offset.toNat) = a.available r := by
    rw [available_eq, hbuffer, Nat.min_comm]
  refine ⟨_, by rw [readInto, hcount], ?_⟩
  rcases Nat.eq_zero_or_pos (a.available r) with hzero | hpos
  · rw [hzero, splice_slice_zero]
    exact ⟨rfl, fun i hi => absurd hi (Nat.not_lt_zero i), fun _ _ => rfl⟩
  · have hsize : a.content.size = a.size := rfl
    exact overwrites_splice (by omega) (by omega)

/-- The bytes of a range are those that a copy to a buffer of its length gives. -/
theorem readRange_eq_of_le (h : r.offset.toNat + r.length.toNat ≤ a.size) (hbuffer : buffer.size = r.length.toNat) :
    a.readRange r = .ok (a.readInto buffer r.offset).1 := by
  obtain ⟨after, hread, hover⟩ := readInto_eq (a := a) hbuffer
  rw [available_of_le h] at hover
  have hslice : (Bytes.slice a.content r.offset.toNat r.length.toNat).size = r.length.toNat := Bytes.size_slice h
  refine readRange_eq_ok_iff.mpr ⟨h, ?_⟩
  rw [hread]
  refine Bytes.ext_get (by rw [hslice, hover.size_eq, hbuffer]) fun i hi => ?_
  rw [hover.size_eq, hbuffer] at hi
  rw [Bytes.get_slice h hi, hover.copied i hi]

/-! ## Reading in words -/

/-- The number of bytes, as a word: an image counts its bytes, a snapshot its registers. -/
def sizeChecked : Artifact → Checked ε UInt64
  | .biosImage image => .ok image.size.toUInt64
  | .registers _ => Checked.mul Register.all.length.toUInt64 Register.slotSize.toUInt64

/-- The copy to a buffer, in words. -/
def readIntoChecked (a : Artifact) (buffer : ByteArray) (offset : UInt64) : Checked ε (ByteArray × UInt64) := do
  let size := a.content.size.toUInt64
  if size ≤ offset then return (buffer, 0)
  else
    let count := min buffer.size.toUInt64 (← Checked.sub size offset)
    let bytes ← Checked.window a.content offset (← Checked.add offset count)
    return (← Checked.overwrite buffer count bytes, count)

/-- All bytes of a range, in words: the range is compared with the size, and then copied to a new buffer, where
a short copy is a fault. -/
def readRangeChecked (a : Artifact) (r : Range) : Checked ContractViolation ByteArray := do
  let size ← a.sizeChecked
  let left := (Checked.minus? size r.offset).getD 0
  if ∃ stop ∈ Checked.plus? r.offset r.length, stop ≤ size then
    let (bytes, count) ← a.readIntoChecked (Bytes.replicate r.length.toNat 0) r.offset
    if count = r.length then return bytes else throw .cutShort
  else throw (.reported (.shortRead a.kind r (min left r.length).toNat))

theorem sizeChecked_eq (a : Artifact) : (a.sizeChecked : Checked ε UInt64) = .ok a.size.toUInt64 := by
  cases a with
  | biosImage image => rfl
  | registers snapshot =>
    have hsize : (registers snapshot).size = 24 := snapshot.size_layout
    rw [hsize]
    rfl

/-- A buffer whose length is a word is copied to without a fault. -/
theorem readIntoChecked_eq (hbuffer : buffer.size < UInt64.size) (offset : UInt64) :
    (a.readIntoChecked buffer offset : Checked ε (ByteArray × UInt64)) =
      .ok ((a.readInto buffer offset).1, (a.readInto buffer offset).2.toUInt64) := by
  obtain ⟨place, hplace, rfl⟩ : ∃ place < UInt64.size, offset = place.toUInt64 :=
    ⟨offset.toNat, offset.toNat_lt, UInt64.ofNat_toNat.symm⟩
  have hsize : a.content.size < UInt64.size / 2 := a.size_lt
  have hhalf : UInt64.size / 2 + UInt64.size / 2 = UInt64.size := by decide
  have hle := Checked.toUInt64_le_iff (n := place) (show a.content.size < UInt64.size by omega) hplace
  rw [readIntoChecked, readInto, UInt64.toNat_ofNat_of_lt' hplace, size]
  dsimp only
  by_cases hend : a.content.size ≤ place
  · rw [if_pos (hle.mpr hend), Nat.sub_eq_zero_of_le hend, Nat.min_zero, splice_slice_zero]
    rfl
  · have hslice : place + min buffer.size (a.content.size - place) ≤ a.content.size := by omega
    rw [if_neg (mt hle.mp hend), Checked.sub_toUInt64 (by omega) (by omega), ok_bind,
      Checked.min_toUInt64 hbuffer (by omega), Checked.add_toUInt64 (by omega), ok_bind,
      Checked.window_eq hslice (by omega), ok_bind,
      Checked.overwrite_eq (by omega) (Nat.min_le_left ..) (Bytes.size_slice hslice), ok_bind]
    rfl

/-- A range is read without a fault. -/
theorem readRangeChecked_eq (a : Artifact) (r : Range) :
    a.readRangeChecked r = Checked.faultless (a.readRange r) := by
  have hsize := a.size_lt
  have hhalf : UInt64.size / 2 + UInt64.size / 2 = UInt64.size := by decide
  have hlength := r.length.toNat_lt
  have hword : a.size.toUInt64.toNat = a.size := UInt64.toNat_ofNat_of_lt' (by omega)
  have hbuffer : (Bytes.replicate r.length.toNat 0).size = r.length.toNat := Bytes.size_replicate ..
  rw [readRangeChecked, sizeChecked_eq, ok_bind]
  dsimp only
  rw [Checked.minus?_getD, hword]
  by_cases h : r.offset.toNat + r.length.toNat ≤ a.size
  · obtain ⟨after, hread, -⟩ := readInto_eq (a := a) hbuffer
    rw [if_pos ((Checked.exists_plus?_le_iff (by omega)).mpr h), readIntoChecked_eq (by omega),
      readRange_eq_of_le h hbuffer, hread, ok_bind, available_of_le h]
    exact if_pos UInt64.ofNat_toNat
  · rw [if_neg (mt (Checked.exists_plus?_le_iff (by omega)).mp h), readRange, if_neg h, UInt64.toNat_min,
      UInt64.toNat_ofNat_of_lt' (by omega)]
    rfl

/-! ## Reading ranges -/

/-- Reading a range succeeds exactly if it lies within the artifact, and gives the bytes there, which all exist.
Otherwise the short read that is reported counts the bytes that exist. As many are copied to a buffer of the same
length, in words too, and none of the buffer behind them is touched. The range is read by such a copy: no sum of
words wraps around, no index lies outside of the bytes or of the buffer, and the copy is never a short one. -/
theorem readRange_exact (a : Artifact) (r : Range) :
    ((∃ bytes, a.readRange r = .ok bytes) ↔ r.offset.toNat + r.length.toNat ≤ a.size) ∧
    (∀ bytes, a.readRange r = .ok bytes → bytes.size = r.length.toNat ∧ a.available r = r.length.toNat ∧
      ∀ i < r.length.toNat, Bytes.get bytes i = Bytes.get a.content (r.offset.toNat + i)) ∧
    (a.size < r.offset.toNat + r.length.toNat →
      a.readRange r = .error (.shortRead a.kind r (a.available r))) ∧
    (∀ buffer, buffer.size = r.length.toNat → ∃ after,
      a.readInto buffer r.offset = (after, a.available r) ∧
      (a.readIntoChecked buffer r.offset : Checked ContractViolation _) = .ok (after, (a.available r).toUInt64) ∧
      Overwrites a.content r.offset.toNat buffer after (a.available r)) ∧
    a.readRangeChecked r = Checked.faultless (a.readRange r) := by
  have hok {bytes : ByteArray} (h : a.readRange r = .ok bytes) := readRange_eq_ok_iff.mp h
  refine ⟨⟨fun ⟨_, h⟩ => (hok h).1, fun h => ⟨_, readRange_eq_ok_iff.mpr ⟨h, rfl⟩⟩⟩, fun bytes h => ?_,
    fun h => ?_, fun buffer hbuffer => ?_, readRangeChecked_eq a r⟩
  · obtain ⟨hin, rfl⟩ := hok h
    exact ⟨Bytes.size_slice hin, available_of_le hin, fun i => Bytes.get_slice hin⟩
  · rw [readRange, if_neg (Nat.not_le.mpr h), available_eq]
  · obtain ⟨after, hread, hover⟩ := readInto_eq (a := a) hbuffer
    refine ⟨after, hread, ?_, hover⟩
    rw [readIntoChecked_eq (hbuffer ▸ r.length.toNat_lt), hread]

/-- An image of eight bytes. -/
def eightBytes : Artifact := .biosImage ⟨⟨#[0x10, 0x11, 0x12, 0x13, 0x14, 0x15, 0x16, 0x17]⟩, by decide⟩

/-- The last bytes of the image, a range that reaches past them, one whose sum is no word, and an empty range
behind the end of a snapshot. -/
theorem readRange_exact_eightBytes :
    (∃ bytes, eightBytes.readRange ⟨4, 4⟩ = .ok bytes ∧ bytes.size = 4 ∧ Bytes.get bytes 3 = 0x17) ∧
    eightBytes.readRange ⟨6, 4⟩ = .error (.shortRead .biosImage ⟨6, 4⟩ 2) ∧
    eightBytes.readRange ⟨0xFFFFFFFFFFFFFFFF, 2⟩ = .error (.shortRead .biosImage ⟨0xFFFFFFFFFFFFFFFF, 2⟩ 0) ∧
    (registers {}).readRange ⟨25, 0⟩ = .error (.shortRead .registers ⟨25, 0⟩ 0) ∧
    ∃ after, eightBytes.readInto (Bytes.replicate 4 0xEE) 6 = (after, 2) ∧
      Bytes.get after 1 = 0x17 ∧ Bytes.get after 2 = 0xEE := by
  have hsize : eightBytes.size = 8 := rfl
  have hpast : eightBytes.available ⟨6, 4⟩ = 2 := by decide
  have hfar : eightBytes.available ⟨0xFFFFFFFFFFFFFFFF, 2⟩ = 0 := by decide
  obtain ⟨hsuccess, hbytes, -⟩ := readRange_exact eightBytes ⟨4, 4⟩
  obtain ⟨-, -, hshort, hcopy, -⟩ := readRange_exact eightBytes ⟨6, 4⟩
  obtain ⟨-, -, hshortFar, -⟩ := readRange_exact eightBytes ⟨0xFFFFFFFFFFFFFFFF, 2⟩
  obtain ⟨-, -, hshortEmpty, -⟩ := readRange_exact (registers {}) ⟨25, 0⟩
  rw [hpast] at hshort hcopy
  rw [hfar] at hshortFar
  obtain ⟨bytes, hread⟩ := hsuccess.mpr (by decide)
  obtain ⟨after, hinto, -, hover⟩ := hcopy (Bytes.replicate 4 0xEE) (Bytes.size_replicate ..)
  refine ⟨⟨bytes, hread, (hbytes bytes hread).1, (hbytes bytes hread).2.2 3 (by decide)⟩, hshort (by decide),
    hshortFar (by decide), hshortEmpty (by decide), after, hinto, hover.copied 1 (by decide), ?_⟩
  rw [hover.kept 2 (Nat.le_refl 2)]
  decide

end MeasuredBoot.Artifact
