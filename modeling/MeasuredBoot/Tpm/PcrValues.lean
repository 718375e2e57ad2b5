import MeasuredBoot.Tpm.Extend

/-!
# PCR values

A `PcrRow` holds the value of one PCR in the bank of each hash function, where it has one;
`PcrValues` is one row for each PCR. A value can be read and replaced only where one was allocated.
-/

namespace MeasuredBoot

/-- The values of one PCR, by hash function. -/
structure PcrRow where
  sha1 : Option ByteArray := none
  sha256 : Option ByteArray := none
  sha384 : Option ByteArray := none
  sha512 : Option ByteArray := none
  deriving BEq, Inhabited

namespace PcrRow

/-- The value in the bank of an algorithm. -/
def get? (row : PcrRow) : Algorithm → Option ByteArray
  | .sha1 => row.sha1
  | .sha256 => row.sha256
  | .sha384 => row.sha384
  | .sha512 => row.sha512
  | _ => none

/-- The row with a value in the bank of a hash function. -/
def put (row : PcrRow) (alg : Algorithm) (value : ByteArray) : PcrRow :=
  match alg with
  | .sha1 => { row with sha1 := some value }
  | .sha256 => { row with sha256 := some value }
  | .sha384 => { row with sha384 := some value }
  | .sha512 => { row with sha512 := some value }
  | _ => row

/-- The row with a value of zero bytes in the bank of a hash function. -/
def allocate (row : PcrRow) (alg : Algorithm) : PcrRow :=
  match alg.digestSize? with
  | some size => row.put alg (Bytes.replicate size 0)
  | none => row

/-- The values of the row in the order of their algorithms. -/
def toList (row : PcrRow) : List (Algorithm × ByteArray) :=
  Algorithm.hashes.filterMap fun alg => (row.get? alg).map (alg, ·)

theorem get?_put_self (row : PcrRow) {alg : Algorithm} (value : ByteArray)
    (h : alg.isHash = true) : (row.put alg value).get? alg = some value := by
  cases alg <;> first | rfl | exact absurd h (by decide)

theorem get?_put_of_ne (row : PcrRow) {alg other : Algorithm} (value : ByteArray)
    (h : other ≠ alg) :
    (row.put alg value).get? other = row.get? other := by
  cases alg <;> cases other <;> first | rfl | exact absurd rfl h

end PcrRow

/-- One row for each PCR. -/
abbrev PcrValues := List PcrRow

namespace PcrValues

/-- Values of zero bytes for `count` PCRs in the banks of the given hash functions. -/
def allocate (count : Nat) (algorithms : List Algorithm) : PcrValues :=
  List.replicate count (algorithms.foldl PcrRow.allocate {})

/-- The value of a PCR in the bank of an algorithm. -/
def get (values : PcrValues) (pcr : UInt8) (alg : Algorithm) : Except TpmError ByteArray :=
  match values[pcr.toNat]? with
  | none => .error (.pcrNotInitialized pcr)
  | some row =>
    match row.get? alg with
    | some value => .ok value
    | none => .error (.slotNotInitialized pcr alg)

/-- The values with one of them replaced. -/
def set (values : PcrValues) (pcr : UInt8) (alg : Algorithm) (value : ByteArray) :
    Except TpmError PcrValues :=
  if Algorithm.sha512.id < alg.id then .error (.algorithmBeyondBanks alg)
  else match values[pcr.toNat]? with
    | none => .error (.pcrNotInitialized pcr)
    | some row =>
      match row.get? alg with
      | some _ => .ok (List.set values pcr.toNat (row.put alg value))
      | none => .error (.slotNotInitialized pcr alg)

/-- The values of one PCR in the order of their algorithms. -/
def banks (values : PcrValues) (pcr : UInt8) : List (Algorithm × ByteArray) :=
  match values[pcr.toNat]? with
  | some row => row.toList
  | none => []

end PcrValues

end MeasuredBoot
