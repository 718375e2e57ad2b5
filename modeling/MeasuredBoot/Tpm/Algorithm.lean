import MeasuredBoot.Digest.Sha1
import MeasuredBoot.Digest.Sha256
import MeasuredBoot.Digest.Sha512

/-!
# Algorithms of a trusted platform module

`Algorithm` lists the algorithm identifiers that the library knows. Four of them are hash functions:
for these `Algorithm.digest?` gives a digest of the size that `Algorithm.digestSize?` says
(`Algorithm.size_of_digest?`).
-/

namespace MeasuredBoot

/-- The algorithm identifiers in the order of their numbers. -/
inductive Algorithm where
  | rsa
  | sha1
  | sha256
  | sha384
  | sha512
  | null
  | ecc
  deriving DecidableEq, Repr

namespace Algorithm

/-- All identifiers in their order. -/
def all : List Algorithm := [.rsa, .sha1, .sha256, .sha384, .sha512, .null, .ecc]

/-- The hash functions in the order of their identifiers. -/
def hashes : List Algorithm := [.sha1, .sha256, .sha384, .sha512]

/-- The number of an identifier. -/
def id : Algorithm → Nat
  | .rsa => 0x0001
  | .sha1 => 0x0004
  | .sha256 => 0x000B
  | .sha384 => 0x000C
  | .sha512 => 0x000D
  | .null => 0x0010
  | .ecc => 0x0023

/-- The identifier with a number. -/
def ofId? (n : Nat) : Option Algorithm := all.find? (·.id == n)

/-- The name of an identifier. -/
def name : Algorithm → String
  | .rsa => "rsa"
  | .sha1 => "sha1"
  | .sha256 => "sha256"
  | .sha384 => "sha384"
  | .sha512 => "sha512"
  | .null => "null"
  | .ecc => "ecc"

/-- Reads the name of a hash function, in any case of its ASCII letters and with hyphens
anywhere. -/
def parse? (text : String) : Option Algorithm :=
  let plain := String.ofList ((text.toList.map Char.toLower).filter (· != '-'))
  hashes.find? (·.name == plain)

/-- The text for a name that `parse?` refuses. -/
def unknownMessage (text : String) : String := s!"unknown hash algorithm: {text}"

/-- The size of a digest in bytes, of a hash function. -/
def digestSize? : Algorithm → Option Nat
  | .sha1 => some 20
  | .sha256 => some 32
  | .sha384 => some 48
  | .sha512 => some 64
  | _ => none

/-- Whether an identifier is that of a hash function. -/
def isHash (alg : Algorithm) : Bool := alg.digestSize?.isSome

/-- The digest of a message by a hash function. -/
def digest? (alg : Algorithm) (message : ByteArray) : Option ByteArray :=
  match alg with
  | .sha1 => some (Digest.Sha1.digest message)
  | .sha256 => some (Digest.Sha256.digest message)
  | .sha384 => some (Digest.Sha512.digest384 message)
  | .sha512 => some (Digest.Sha512.digest message)
  | _ => none

theorem size_of_digest? {alg : Algorithm} {message d : ByteArray}
    (h : alg.digest? message = some d) : alg.digestSize? = some d.size := by
  cases alg <;> simp only [digest?, reduceCtorEq, Option.some.injEq] at h <;> subst h
  · rw [Digest.Sha1.size_digest]; rfl
  · rw [Digest.Sha256.size_digest]; rfl
  · rw [Digest.Sha512.size_digest384]; rfl
  · rw [Digest.Sha512.size_digest]; rfl

theorem isSome_digest? (alg : Algorithm) (message : ByteArray) :
    (alg.digest? message).isSome = alg.isHash := by
  cases alg <;> rfl

end Algorithm

end MeasuredBoot
