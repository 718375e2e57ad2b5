import Mathlib.InformationTheory.Hamming
import MeasuredBoot.Proofs.Bytes.Hamming
import MeasuredBoot.Proofs.Combination.Ranking

/-!
# The Hamming spheres of a byte string

The byte strings at distance `k` from a byte string `bs` are, one for one, those with a combination of `k` bits
flipped: the combination is read off as the bits in which the two differ.

* `distance_eq_hammingDist`: `distance` is the Hamming distance of the bits;
* `chooses_differing`: the bits in which byte strings differ are a combination of as many bits as their distance;
* `flipBits_sphere`: flipping is a bijection from the combinations onto the sphere, and undoes itself.
-/

namespace MeasuredBoot.Bytes

open Combination (Chooses)

variable {bs other : ByteArray} {k : Nat}

/-- The distance of byte strings is the Hamming distance of their bits. -/
theorem distance_eq_hammingDist (a b : ByteArray) :
    distance a b = hammingDist (fun i : Fin (bitCount a) => bit a i) (fun i => bit b i) := by
  have hcount : (Finset.univ.filter fun i : Fin (bitCount a) => bit a i ≠ bit b i).card =
      ((List.finRange (bitCount a)).filter fun i : Fin (bitCount a) => decide (bit a i ≠ bit b i)).length := by
    rw [Fin.univ_def]
    rfl
  rw [hammingDist, hcount, distance, differing, ← List.map_coe_finRange_eq_range, List.filter_map,
    List.length_map]
  refine congrArg List.length (List.filter_congr fun i _ => ?_)
  rw [Function.comp_apply, Bool.eq_iff_iff, bne_iff_ne, decide_eq_true_iff]

/-- The bits in which byte strings differ are a combination. -/
theorem chooses_differing (h : distance bs other = k) : Chooses (differing bs other) k (bitCount bs) where
  ascending := pairwise_differing bs other
  length_eq := h
  below _ hi := (mem_differing.mp hi).1

/-- Flipping the bits of a combination leads to the sphere. -/
theorem mapsTo_flipBits (bs : ByteArray) (k : Nat) :
    Set.MapsTo (flipBits · bs) {c | Chooses c k (bitCount bs)}
      {other | other.size = bs.size ∧ distance bs other = k} := by
  intro c hc
  exact ⟨size_flipBits c bs, (distance_flipBits hc.ascending hc.below).trans hc.length_eq⟩

/-- On the sphere, flipping the bits in which a byte string differs is the inverse. -/
theorem invOn_differing (bs : ByteArray) (k : Nat) :
    Set.InvOn (differing bs) (flipBits · bs) {c | Chooses c k (bitCount bs)}
      {other | other.size = bs.size ∧ distance bs other = k} :=
  ⟨fun _ hc => differing_flipBits hc.ascending hc.below, fun _ h => flipBits_differing h.1.symm⟩

/-- Flipping bits that exist does not fail, and is its own inverse. -/
theorem flipBits?_flipBits {bits : List Nat} (h : ∀ b ∈ bits, b < bitCount bs) :
    flipBits? bits bs = some (flipBits bits bs) ∧ flipBits? bits (flipBits bits bs) = some bs := by
  have hall : bits.all (· < bitCount bs) = true := List.all_eq_true.mpr fun b hb => decide_eq_true (h b hb)
  rw [flipBits?, flipBits?, bitCount_flipBits, if_pos hall, if_pos hall, flipBits_flipBits h]
  exact ⟨rfl, rfl⟩

/-- The combinations of `k` bits are, by flipping them, in bijection with the byte strings of the same size at
Hamming distance `k`. Flipping any bits that exist, in order or not and repeated or not, does not fail, changes each
bit as often as it is named, and restores the byte string the second time. -/
theorem flipBits_sphere (bs : ByteArray) (k : Nat) :
    Set.BijOn (flipBits · bs) {c | Chooses c k (bitCount bs)}
      {other | other.size = bs.size ∧ distance bs other = k} ∧
    (∀ other, distance bs other =
      hammingDist (fun i : Fin (bitCount bs) => bit bs i) (fun i => bit other i)) ∧
    ∀ bits : List Nat, (∀ b ∈ bits, b < bitCount bs) →
      flipBits? bits bs = some (flipBits bits bs) ∧ flipBits? bits (flipBits bits bs) = some bs ∧
      ∀ i, bit (flipBits bits bs) i = (bit bs i ^^ decide (bits.count i % 2 = 1)) := by
  refine ⟨(invOn_differing bs k).bijOn (mapsTo_flipBits bs k) fun other h => chooses_differing h.2,
    distance_eq_hammingDist bs, fun bits h => ?_⟩
  obtain ⟨hfirst, hsecond⟩ := flipBits?_flipBits h
  exact ⟨hfirst, hsecond, bit_flipBits h⟩

/-- A byte string three bits away, and bits that are out of order and named more than once. -/
theorem flipBits_sphere_twoBytes :
    distance ⟨#[0x00, 0xF0]⟩ ⟨#[0x03, 0x70]⟩ = 3 ∧
    (∃ c, Chooses c 3 16 ∧ flipBits c ⟨#[0x00, 0xF0]⟩ = ⟨#[0x03, 0x70]⟩) ∧
    flipBits? [15, 1, 0, 1, 1] ⟨#[0x00, 0xF0]⟩ = some ⟨#[0x03, 0x70]⟩ ∧
    flipBits? [15, 1, 0, 1, 1] ⟨#[0x03, 0x70]⟩ = some ⟨#[0x00, 0xF0]⟩ := by
  have hdistance : distance ⟨#[0x00, 0xF0]⟩ ⟨#[0x03, 0x70]⟩ = 3 := by decide
  have hflips : flipBits [15, 1, 0, 1, 1] ⟨#[0x00, 0xF0]⟩ = ⟨#[0x03, 0x70]⟩ := by decide
  obtain ⟨hsphere, -, htwice⟩ := flipBits_sphere ⟨#[0x00, 0xF0]⟩ 3
  obtain ⟨hfirst, hsecond, -⟩ := htwice [15, 1, 0, 1, 1] (by decide)
  rw [hflips] at hfirst hsecond
  exact ⟨hdistance, hsphere.surjOn ⟨rfl, hdistance⟩, hfirst, hsecond⟩

end MeasuredBoot.Bytes
