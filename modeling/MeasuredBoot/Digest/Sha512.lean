import MeasuredBoot.Digest.Padding

/-!
# SHA-512 and SHA-384

`Sha512.digest` gives 64 bytes and `Sha512.digest384` gives 48 bytes for any message (`size_digest`,
`size_digest384`), by 80 rounds on eight 64-bit words for each block of 128 bytes.
-/

namespace MeasuredBoot.Digest.Sha512

open Padding (pad)

/-- The working state: eight words. -/
structure Words where
  a : UInt64
  b : UInt64
  c : UInt64
  d : UInt64
  e : UInt64
  f : UInt64
  g : UInt64
  h : UInt64

/-- Rotates a word to the right. -/
@[inline] def rotate (x n : UInt64) : UInt64 := (x >>> n) ||| (x <<< (64 - n))

/-- The word at a byte offset, most significant byte first. -/
def wordAt (bs : ByteArray) (i : Nat) : UInt64 :=
  ((Bytes.get bs i).toUInt64 <<< 56) ||| ((Bytes.get bs (i + 1)).toUInt64 <<< 48) |||
    ((Bytes.get bs (i + 2)).toUInt64 <<< 40) ||| ((Bytes.get bs (i + 3)).toUInt64 <<< 32) |||
    ((Bytes.get bs (i + 4)).toUInt64 <<< 24) ||| ((Bytes.get bs (i + 5)).toUInt64 <<< 16) |||
    ((Bytes.get bs (i + 6)).toUInt64 <<< 8) ||| (Bytes.get bs (i + 7)).toUInt64

/-- The constants of the rounds: fractional bits of the cube roots of the first primes. -/
def roundConstants : Array UInt64 :=
  #[0x428A2F98D728AE22, 0x7137449123EF65CD, 0xB5C0FBCFEC4D3B2F, 0xE9B5DBA58189DBBC,
    0x3956C25BF348B538, 0x59F111F1B605D019, 0x923F82A4AF194F9B, 0xAB1C5ED5DA6D8118,
    0xD807AA98A3030242, 0x12835B0145706FBE, 0x243185BE4EE4B28C, 0x550C7DC3D5FFB4E2,
    0x72BE5D74F27B896F, 0x80DEB1FE3B1696B1, 0x9BDC06A725C71235, 0xC19BF174CF692694,
    0xE49B69C19EF14AD2, 0xEFBE4786384F25E3, 0x0FC19DC68B8CD5B5, 0x240CA1CC77AC9C65,
    0x2DE92C6F592B0275, 0x4A7484AA6EA6E483, 0x5CB0A9DCBD41FBD4, 0x76F988DA831153B5,
    0x983E5152EE66DFAB, 0xA831C66D2DB43210, 0xB00327C898FB213F, 0xBF597FC7BEEF0EE4,
    0xC6E00BF33DA88FC2, 0xD5A79147930AA725, 0x06CA6351E003826F, 0x142929670A0E6E70,
    0x27B70A8546D22FFC, 0x2E1B21385C26C926, 0x4D2C6DFC5AC42AED, 0x53380D139D95B3DF,
    0x650A73548BAF63DE, 0x766A0ABB3C77B2A8, 0x81C2C92E47EDAEE6, 0x92722C851482353B,
    0xA2BFE8A14CF10364, 0xA81A664BBC423001, 0xC24B8B70D0F89791, 0xC76C51A30654BE30,
    0xD192E819D6EF5218, 0xD69906245565A910, 0xF40E35855771202A, 0x106AA07032BBD1B8,
    0x19A4C116B8D2D0C8, 0x1E376C085141AB53, 0x2748774CDF8EEB99, 0x34B0BCB5E19B48A8,
    0x391C0CB3C5C95A63, 0x4ED8AA4AE3418ACB, 0x5B9CCA4F7763E373, 0x682E6FF3D6B2B8A3,
    0x748F82EE5DEFB2FC, 0x78A5636F43172F60, 0x84C87814A1F0AB72, 0x8CC702081A6439EC,
    0x90BEFFFA23631E28, 0xA4506CEBDE82BDE9, 0xBEF9A3F7B2C67915, 0xC67178F2E372532B,
    0xCA273ECEEA26619C, 0xD186B8C721C0C207, 0xEADA7DD6CDE0EB1E, 0xF57D4F7FEE6ED178,
    0x06F067AA72176FBA, 0x0A637DC5A2C898A6, 0x113F9804BEF90DAE, 0x1B710B35131C471B,
    0x28DB77F523047D84, 0x32CAAB7B40C72493, 0x3C9EBE0A15C9BEBC, 0x431D67C49C100D4C,
    0x4CC5D4BECB3E42B6, 0x597F299CFC657E2A, 0x5FCB6FAB3AD6FAEC, 0x6C44198C4A475817]

/-- Appends the next word of the message schedule. -/
def extendSchedule (w : Array UInt64) : Array UInt64 :=
  let x := w.getD (w.size - 15) 0
  let y := w.getD (w.size - 2) 0
  let s0 := rotate x 1 ^^^ rotate x 8 ^^^ (x >>> 7)
  let s1 := rotate y 19 ^^^ rotate y 61 ^^^ (y >>> 6)
  w.push (w.getD (w.size - 16) 0 + s0 + w.getD (w.size - 7) 0 + s1)

/-- The message schedule of the block at a byte offset. -/
def schedule (bs : ByteArray) (start : Nat) : Array UInt64 :=
  Nat.repeat extendSchedule 64
    (Nat.fold 16 (fun i _ w => w.push (wordAt bs (start + 8 * i))) (Array.emptyWithCapacity 80))

/-- One round with its constant and its word of the schedule. -/
def Words.round (s : Words) (k w : UInt64) : Words :=
  let s1 := rotate s.e 14 ^^^ rotate s.e 18 ^^^ rotate s.e 41
  let choice := (s.e &&& s.f) ^^^ (~~~s.e &&& s.g)
  let t1 := s.h + s1 + choice + k + w
  let s0 := rotate s.a 28 ^^^ rotate s.a 34 ^^^ rotate s.a 39
  let majority := (s.a &&& s.b) ^^^ (s.a &&& s.c) ^^^ (s.b &&& s.c)
  ⟨t1 + (s0 + majority), s.a, s.b, s.c, s.d + t1, s.e, s.f, s.g⟩

/-- The last `n` of the 80 rounds. -/
def rounds (w : Array UInt64) : (n : Nat) → Words → Words
  | 0, s => s
  | n + 1, s => rounds w n (s.round (roundConstants.getD (79 - n) 0) (w.getD (79 - n) 0))

/-- Wordwise sum. -/
def Words.add (s t : Words) : Words :=
  ⟨s.a + t.a, s.b + t.b, s.c + t.c, s.d + t.d, s.e + t.e, s.f + t.f, s.g + t.g, s.h + t.h⟩

/-- Takes in `n` blocks from byte offset `i` on. -/
def absorb (bs : ByteArray) : (n i : Nat) → Words → Words
  | 0, _, s => s
  | n + 1, i, s => absorb bs n (i + 128) (s.add (rounds (schedule bs i) 80 s))

/-- The bytes of a word, most significant byte first, behind `out`. -/
def pushWord (out : ByteArray) (x : UInt64) : ByteArray :=
  (((((((out.push (x >>> 56).toUInt8).push (x >>> 48).toUInt8).push (x >>> 40).toUInt8).push
    (x >>> 32).toUInt8).push (x >>> 24).toUInt8).push (x >>> 16).toUInt8).push
    (x >>> 8).toUInt8).push x.toUInt8

@[simp] theorem size_pushWord (out : ByteArray) (x : UInt64) :
    (pushWord out x).size = out.size + 8 := by
  simp [pushWord, ByteArray.size_push]

/-- The bytes of a state. -/
def Words.toBytes (s : Words) : ByteArray :=
  [s.a, s.b, s.c, s.d, s.e, s.f, s.g, s.h].foldl pushWord (ByteArray.emptyWithCapacity 64)

theorem Words.size_toBytes (s : Words) : s.toBytes.size = 64 := by
  simp only [Words.toBytes, List.foldl, size_pushWord]
  rfl

/-- The state before the first block of a 64-byte digest. -/
def initial : Words :=
  ⟨0x6A09E667F3BCC908, 0xBB67AE8584CAA73B, 0x3C6EF372FE94F82B, 0xA54FF53A5F1D36F1,
    0x510E527FADE682D1, 0x9B05688C2B3E6C1F, 0x1F83D9ABFB41BD6B, 0x5BE0CD19137E2179⟩

/-- The state before the first block of a 48-byte digest. -/
def initial384 : Words :=
  ⟨0xCBBB9D5DC1059ED8, 0x629A292A367CD507, 0x9159015A3070DD17, 0x152FECD8F70E5939,
    0x67332667FFC00B31, 0x8EB44A8768581511, 0xDB0C2E0D64F98FA7, 0x47B5481DBEFA4FA4⟩

/-- The final state of a message, from a given start. -/
def run (start : Words) (message : ByteArray) : Words :=
  let padded := pad 128 16 message
  absorb padded (padded.size / 128) 0 start

/-- The digest of a message. -/
def digest (message : ByteArray) : ByteArray := (run initial message).toBytes

/-- The shorter digest of a message: other start, and the first 48 bytes. -/
def digest384 (message : ByteArray) : ByteArray := (run initial384 message).toBytes.extract 0 48

theorem size_digest (message : ByteArray) : (digest message).size = 64 :=
  Words.size_toBytes _

theorem size_digest384 (message : ByteArray) : (digest384 message).size = 48 := by
  rw [digest384, ByteArray.size_extract, Words.size_toBytes]
  rfl

end MeasuredBoot.Digest.Sha512
