import MeasuredBoot.Tpm.Error

/-!
# Extending a PCR

A PCR value changes only by extension: the new value is the digest of the old value followed by a
digest (`Algorithm.extend`). `Algorithm.extendAll` extends by several digests in order, and
`Algorithm.initialValue` is the value that a PCR starts from.
-/

namespace MeasuredBoot.Algorithm

/-- The digest of a message, if the algorithm is a hash function. -/
def hash (alg : Algorithm) (message : ByteArray) : Except TpmError ByteArray :=
  match alg.digest? message with
  | some d => .ok d
  | none => .error (.unsupportedHashAlgorithm alg)

/-- The size of the algorithm's digests, if it is a hash function. -/
def digestSize (alg : Algorithm) : Except TpmError Nat :=
  match alg.digestSize? with
  | some n => .ok n
  | none => .error (.unsupportedHashAlgorithm alg)

/-- The value of a PCR after one more digest. -/
def extend (alg : Algorithm) (old digest : ByteArray) : Except TpmError ByteArray :=
  alg.hash (old ++ digest)

/-- The value of a PCR after more digests, in their order. -/
def extendAll (alg : Algorithm) (old : ByteArray) (digests : List ByteArray) :
    Except TpmError ByteArray :=
  digests.foldlM alg.extend old

/-- The value that a PCR starts from: zero bytes, of which the last one of PCR 0 is the locality
that the module was started at. -/
def initialValue (alg : Algorithm) (pcr locality : UInt8) : Except TpmError ByteArray := do
  let size ← alg.digestSize
  if pcr = 0 then return (Bytes.replicate (size - 1) 0).push locality
  else return Bytes.replicate size 0

end MeasuredBoot.Algorithm
