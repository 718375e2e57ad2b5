import MeasuredBoot.Digest.Padding

/-!
# SHA-1

`Sha1.digest` gives 20 bytes for any message (`size_digest`), by 80 rounds on five 32-bit words for
each block of 64 bytes.
-/

namespace MeasuredBoot.Digest.Sha1

open Padding (pad)

/-- The working state: five words. -/
structure Words where
  a : UInt32
  b : UInt32
  c : UInt32
  d : UInt32
  e : UInt32

/-- Rotates a word to the left. -/
@[inline] def rotate (x n : UInt32) : UInt32 := (x <<< n) ||| (x >>> (32 - n))

/-- The word at a byte offset, most significant byte first. -/
def wordAt (bs : ByteArray) (i : Nat) : UInt32 :=
  ((Bytes.get bs i).toUInt32 <<< 24) ||| ((Bytes.get bs (i + 1)).toUInt32 <<< 16) |||
    ((Bytes.get bs (i + 2)).toUInt32 <<< 8) ||| (Bytes.get bs (i + 3)).toUInt32

/-- Appends the next word of the message schedule. -/
def extendSchedule (w : Array UInt32) : Array UInt32 :=
  w.push (rotate (w.getD (w.size - 3) 0 ^^^ w.getD (w.size - 8) 0 ^^^ w.getD (w.size - 14) 0 ^^^
    w.getD (w.size - 16) 0) 1)

/-- The message schedule of the block at a byte offset. -/
def schedule (bs : ByteArray) (start : Nat) : Array UInt32 :=
  Nat.repeat extendSchedule 64
    (Nat.fold 16 (fun i _ w => w.push (wordAt bs (start + 4 * i))) (Array.emptyWithCapacity 80))

/-- What round `i` mixes of three words, and its constant. -/
def mix (i : Nat) (b c d : UInt32) : UInt32 :=
  if i < 20 then ((b &&& c) ||| (~~~b &&& d)) + 0x5A827999
  else if i < 40 then (b ^^^ c ^^^ d) + 0x6ED9EBA1
  else if i < 60 then ((b &&& c) ||| (b &&& d) ||| (c &&& d)) + 0x8F1BBCDC
  else (b ^^^ c ^^^ d) + 0xCA62C1D6

/-- Round `i` with its word of the schedule. -/
def Words.round (s : Words) (i : Nat) (w : UInt32) : Words :=
  ⟨rotate s.a 5 + mix i s.b s.c s.d + s.e + w, s.a, rotate s.b 30, s.c, s.d⟩

/-- The last `n` of the 80 rounds. -/
def rounds (w : Array UInt32) : (n : Nat) → Words → Words
  | 0, s => s
  | n + 1, s => rounds w n (s.round (79 - n) (w.getD (79 - n) 0))

/-- Wordwise sum. -/
def Words.add (s t : Words) : Words :=
  ⟨s.a + t.a, s.b + t.b, s.c + t.c, s.d + t.d, s.e + t.e⟩

/-- Takes in `n` blocks from byte offset `i` on. -/
def absorb (bs : ByteArray) : (n i : Nat) → Words → Words
  | 0, _, s => s
  | n + 1, i, s => absorb bs n (i + 64) (s.add (rounds (schedule bs i) 80 s))

/-- The bytes of a word, most significant byte first, behind `out`. -/
def pushWord (out : ByteArray) (x : UInt32) : ByteArray :=
  (((out.push (x >>> 24).toUInt8).push (x >>> 16).toUInt8).push (x >>> 8).toUInt8).push x.toUInt8

@[simp] theorem size_pushWord (out : ByteArray) (x : UInt32) :
    (pushWord out x).size = out.size + 4 := by
  simp [pushWord, ByteArray.size_push]

/-- The bytes of a state. -/
def Words.toBytes (s : Words) : ByteArray :=
  [s.a, s.b, s.c, s.d, s.e].foldl pushWord (ByteArray.emptyWithCapacity 20)

theorem Words.size_toBytes (s : Words) : s.toBytes.size = 20 := by
  simp only [Words.toBytes, List.foldl, size_pushWord]
  rfl

/-- The state before the first block. -/
def initial : Words :=
  ⟨0x67452301, 0xEFCDAB89, 0x98BADCFE, 0x10325476, 0xC3D2E1F0⟩

/-- The digest of a message. -/
def digest (message : ByteArray) : ByteArray :=
  let padded := pad 64 8 message
  (absorb padded (padded.size / 64) 0 initial).toBytes

theorem size_digest (message : ByteArray) : (digest message).size = 20 :=
  Words.size_toBytes _

end MeasuredBoot.Digest.Sha1
