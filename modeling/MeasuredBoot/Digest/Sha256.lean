import MeasuredBoot.Digest.Padding

/-!
# SHA-256

`Sha256.digest` gives 32 bytes for any message (`size_digest`), by 64 rounds on eight 32-bit words
for each block of 64 bytes.
-/

namespace MeasuredBoot.Digest.Sha256

open Padding (pad)

/-- The working state: eight words. -/
structure Words where
  a : UInt32
  b : UInt32
  c : UInt32
  d : UInt32
  e : UInt32
  f : UInt32
  g : UInt32
  h : UInt32

/-- Rotates a word to the right. -/
@[inline] def rotate (x n : UInt32) : UInt32 := (x >>> n) ||| (x <<< (32 - n))

/-- The word at a byte offset, most significant byte first. -/
def wordAt (bs : ByteArray) (i : Nat) : UInt32 :=
  ((Bytes.get bs i).toUInt32 <<< 24) ||| ((Bytes.get bs (i + 1)).toUInt32 <<< 16) |||
    ((Bytes.get bs (i + 2)).toUInt32 <<< 8) ||| (Bytes.get bs (i + 3)).toUInt32

/-- The constants of the rounds: fractional bits of the cube roots of the first primes. -/
def roundConstants : Array UInt32 :=
  #[0x428A2F98, 0x71374491, 0xB5C0FBCF, 0xE9B5DBA5, 0x3956C25B, 0x59F111F1, 0x923F82A4, 0xAB1C5ED5,
    0xD807AA98, 0x12835B01, 0x243185BE, 0x550C7DC3, 0x72BE5D74, 0x80DEB1FE, 0x9BDC06A7, 0xC19BF174,
    0xE49B69C1, 0xEFBE4786, 0x0FC19DC6, 0x240CA1CC, 0x2DE92C6F, 0x4A7484AA, 0x5CB0A9DC, 0x76F988DA,
    0x983E5152, 0xA831C66D, 0xB00327C8, 0xBF597FC7, 0xC6E00BF3, 0xD5A79147, 0x06CA6351, 0x14292967,
    0x27B70A85, 0x2E1B2138, 0x4D2C6DFC, 0x53380D13, 0x650A7354, 0x766A0ABB, 0x81C2C92E, 0x92722C85,
    0xA2BFE8A1, 0xA81A664B, 0xC24B8B70, 0xC76C51A3, 0xD192E819, 0xD6990624, 0xF40E3585, 0x106AA070,
    0x19A4C116, 0x1E376C08, 0x2748774C, 0x34B0BCB5, 0x391C0CB3, 0x4ED8AA4A, 0x5B9CCA4F, 0x682E6FF3,
    0x748F82EE, 0x78A5636F, 0x84C87814, 0x8CC70208, 0x90BEFFFA, 0xA4506CEB, 0xBEF9A3F7, 0xC67178F2]

/-- Appends the next word of the message schedule. -/
def extendSchedule (w : Array UInt32) : Array UInt32 :=
  let x := w.getD (w.size - 15) 0
  let y := w.getD (w.size - 2) 0
  let s0 := rotate x 7 ^^^ rotate x 18 ^^^ (x >>> 3)
  let s1 := rotate y 17 ^^^ rotate y 19 ^^^ (y >>> 10)
  w.push (w.getD (w.size - 16) 0 + s0 + w.getD (w.size - 7) 0 + s1)

/-- The message schedule of the block at a byte offset. -/
def schedule (bs : ByteArray) (start : Nat) : Array UInt32 :=
  Nat.repeat extendSchedule 48
    (Nat.fold 16 (fun i _ w => w.push (wordAt bs (start + 4 * i))) (Array.emptyWithCapacity 64))

/-- One round with its constant and its word of the schedule. -/
def Words.round (s : Words) (k w : UInt32) : Words :=
  let s1 := rotate s.e 6 ^^^ rotate s.e 11 ^^^ rotate s.e 25
  let choice := (s.e &&& s.f) ^^^ (~~~s.e &&& s.g)
  let t1 := s.h + s1 + choice + k + w
  let s0 := rotate s.a 2 ^^^ rotate s.a 13 ^^^ rotate s.a 22
  let majority := (s.a &&& s.b) ^^^ (s.a &&& s.c) ^^^ (s.b &&& s.c)
  ⟨t1 + (s0 + majority), s.a, s.b, s.c, s.d + t1, s.e, s.f, s.g⟩

/-- The last `n` of the 64 rounds. -/
def rounds (w : Array UInt32) : (n : Nat) → Words → Words
  | 0, s => s
  | n + 1, s => rounds w n (s.round (roundConstants.getD (63 - n) 0) (w.getD (63 - n) 0))

/-- Wordwise sum. -/
def Words.add (s t : Words) : Words :=
  ⟨s.a + t.a, s.b + t.b, s.c + t.c, s.d + t.d, s.e + t.e, s.f + t.f, s.g + t.g, s.h + t.h⟩

/-- Takes in `n` blocks from byte offset `i` on. -/
def absorb (bs : ByteArray) : (n i : Nat) → Words → Words
  | 0, _, s => s
  | n + 1, i, s => absorb bs n (i + 64) (s.add (rounds (schedule bs i) 64 s))

/-- The bytes of a word, most significant byte first, behind `out`. -/
def pushWord (out : ByteArray) (x : UInt32) : ByteArray :=
  (((out.push (x >>> 24).toUInt8).push (x >>> 16).toUInt8).push (x >>> 8).toUInt8).push x.toUInt8

@[simp] theorem size_pushWord (out : ByteArray) (x : UInt32) :
    (pushWord out x).size = out.size + 4 := by
  simp [pushWord, ByteArray.size_push]

/-- The bytes of a state. -/
def Words.toBytes (s : Words) : ByteArray :=
  [s.a, s.b, s.c, s.d, s.e, s.f, s.g, s.h].foldl pushWord (ByteArray.emptyWithCapacity 32)

theorem Words.size_toBytes (s : Words) : s.toBytes.size = 32 := by
  simp only [Words.toBytes, List.foldl, size_pushWord]
  rfl

/-- The state before the first block. -/
def initial : Words :=
  ⟨0x6A09E667, 0xBB67AE85, 0x3C6EF372, 0xA54FF53A,
    0x510E527F, 0x9B05688C, 0x1F83D9AB, 0x5BE0CD19⟩

/-- The digest of a message. -/
def digest (message : ByteArray) : ByteArray :=
  let padded := pad 64 8 message
  (absorb padded (padded.size / 64) 0 initial).toBytes

theorem size_digest (message : ByteArray) : (digest message).size = 32 :=
  Words.size_toBytes _

end MeasuredBoot.Digest.Sha256
