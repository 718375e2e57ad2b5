import MeasuredBoot.Bytes

/-!
# Padding of messages

The hash functions of this library work on whole blocks. `Padding.pad` appends to a message one set
bit, as few zero bits as possible and the length of the message in bits, so that blocks come out
whole and no two messages come out equal.
-/

namespace MeasuredBoot.Digest.Padding

/-- The low `width` bytes of a number, most significant byte first. -/
def bigEndian (value : Nat) : (width : Nat) → ByteArray
  | 0 => ByteArray.empty
  | width + 1 => (bigEndian (value / 256) width).push value.toUInt8

/-- The number of zero bytes between the marker and the length. -/
def zeros (block lengthWidth size : Nat) : Nat :=
  (block - (size + 1 + lengthWidth) % block) % block

/-- The message followed by the marker, zeros and its length in bits. -/
def pad (block lengthWidth : Nat) (message : ByteArray) : ByteArray :=
  message.push 0x80 ++ Bytes.replicate (zeros block lengthWidth message.size) 0 ++
    bigEndian (8 * message.size) lengthWidth

end MeasuredBoot.Digest.Padding
