import MeasuredBoot.Bytes

/-!
# Flipping bits of byte strings

Bit `8 * i + j` of a byte string is bit `j` of its byte `i`, where bit 0 of a byte is the least
significant one.
-/

namespace MeasuredBoot.Bytes

/-- The number of bits of a byte string. -/
def bitCount (bs : ByteArray) : Nat := 8 * bs.size

/-- A byte string with a bit flipped; a bit past the end does not exist. -/
def flipBit (bs : ByteArray) (bit : Nat) : ByteArray :=
  if h : bit / 8 < bs.size then
    bs.set (bit / 8) (bs[bit / 8] ^^^ (1 <<< (bit % 8).toUInt8))
  else bs

/-- A byte string with bits flipped one after the other. -/
def flipBits (bits : List Nat) (bs : ByteArray) : ByteArray := bits.foldl flipBit bs

/-- A byte string with bits flipped, all of which have to exist. -/
def flipBits? (bits : List Nat) (bs : ByteArray) : Option ByteArray :=
  if bits.all (· < bitCount bs) then some (flipBits bits bs) else none

@[simp] theorem size_flipBit (bs : ByteArray) (bit : Nat) : (flipBit bs bit).size = bs.size := by
  unfold flipBit
  split
  · exact Array.size_set ..
  · rfl

@[simp] theorem size_flipBits (bits : List Nat) (bs : ByteArray) :
    (flipBits bits bs).size = bs.size := by
  induction bits generalizing bs with
  | nil => rfl
  | cons bit rest ih => exact (ih _).trans (size_flipBit bs bit)

end MeasuredBoot.Bytes
