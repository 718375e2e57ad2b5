/-!
# Byte strings

Byte strings are `ByteArray`s. This module holds what the rest of the library needs of them beside
the standard operations:

* `Bytes.get`: the byte at an offset, zero past the end;
* `Bytes.slice`: the bytes of a window, cut short at the end of the string;
* `Bytes.word`, `Bytes.ofWord`: little-endian numbers, both ways;
* `Bytes.splice`: a string with a window of it replaced;
* `Bytes.tabulate`, `Bytes.replicate`: strings given byte by byte;
* `Bytes.find?`: the first place where a marker occurs.
-/

namespace MeasuredBoot.Bytes

/-- The byte at offset `i`, zero past the end. -/
def get (bs : ByteArray) (i : Nat) : UInt8 :=
  if h : i < bs.size then bs[i] else 0

/-- The bytes from `offset` on, `length` of them or as many as there are. -/
def slice (bs : ByteArray) (offset length : Nat) : ByteArray :=
  bs.extract offset (offset + length)

/-- The number whose little-endian form is the `width` bytes at `offset`; bytes past the end count
as zero. -/
def word (bs : ByteArray) (offset : Nat) : (width : Nat) → Nat
  | 0 => 0
  | width + 1 => (Bytes.get bs offset).toNat + 256 * word bs (offset + 1) width

/-- The low `width` bytes of a number, least significant byte first. -/
def ofWord (value : Nat) : (width : Nat) → ByteArray
  | 0 => ByteArray.empty
  | width + 1 => ByteArray.empty.push value.toUInt8 ++ ofWord (value / 256) width

/-- `bs` with the bytes from `offset` on replaced by those of `patch`. -/
def splice (bs : ByteArray) (offset : Nat) (patch : ByteArray) : ByteArray :=
  bs.extract 0 offset ++ patch ++ bs.extract (offset + patch.size) bs.size

/-- The byte string of `n` bytes of which byte `i` is `f i`. -/
def tabulate (n : Nat) (f : Nat → UInt8) : ByteArray :=
  n.fold (fun i _ bs => bs.push (f i)) (ByteArray.emptyWithCapacity n)

/-- `n` copies of one byte. -/
def replicate (n : Nat) (b : UInt8) : ByteArray := tabulate n fun _ => b

theorem size_fold_push (n : Nat) (f : Nat → UInt8) (bs : ByteArray) :
    (n.fold (fun i _ bs => bs.push (f i)) bs).size = bs.size + n := by
  induction n with
  | zero => rfl
  | succ n ih => rw [Nat.fold_succ, ByteArray.size_push, ih]; omega

@[simp] theorem size_tabulate (n : Nat) (f : Nat → UInt8) : (tabulate n f).size = n := by
  rw [tabulate, size_fold_push]
  exact Nat.zero_add n

@[simp] theorem size_replicate (n : Nat) (b : UInt8) : (replicate n b).size = n :=
  size_tabulate n _

/-- Whether `n` bytes of `a` from `i` on are those of `b` from `j` on. -/
def agree (a b : ByteArray) (i j : Nat) : (n : Nat) → Bool
  | 0 => true
  | n + 1 => Bytes.get a i == Bytes.get b j && agree a b (i + 1) (j + 1) n

/-- Whether `marker` occurs in `bs` at offset `i`. -/
def occursAt (marker bs : ByteArray) (i : Nat) : Bool :=
  i + marker.size ≤ bs.size && agree marker bs 0 i marker.size

/-- The first offset from `i` on where `marker` occurs, with `n` offsets left to try. -/
def findFrom (marker bs : ByteArray) (i : Nat) : (n : Nat) → Option Nat
  | 0 => none
  | n + 1 => if occursAt marker bs i then some i else findFrom marker bs (i + 1) n

/-- The first offset where `marker` occurs in `bs`. -/
def find? (marker bs : ByteArray) : Option Nat :=
  findFrom marker bs 0 (bs.size + 1 - marker.size)

end MeasuredBoot.Bytes
