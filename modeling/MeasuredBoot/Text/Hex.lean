/-!
# Hexadecimal text

Byte strings are written as pairs of lower-case digits (`Hex.encode`) and read in either case
(`Hex.decode?`). Numbers are written without leading zeros, in upper case (`Hex.upper`) for
addresses and in lower case (`Hex.lower`) for escapes.
-/

namespace MeasuredBoot.Hex

/-- The lower-case digit of a number below sixteen. -/
def digit (n : UInt8) : Char :=
  if n < 10 then Char.ofNat (48 + n.toNat) else Char.ofNat (87 + n.toNat)

/-- Two lower-case digits for each byte. -/
def encode (bs : ByteArray) : String :=
  bs.foldl (fun text b => (text.push (digit (b / 16))).push (digit (b % 16))) ""

/-- The value of a digit of either case. -/
def value? (c : Char) : Option UInt8 :=
  if c.isDigit then some (c.toNat - 48).toUInt8
  else if 'a' ≤ c && c ≤ 'f' then some (c.toNat - 87).toUInt8
  else if 'A' ≤ c && c ≤ 'F' then some (c.toNat - 55).toUInt8
  else none

/-- Reads pairs of digits behind the bytes `acc`. -/
def decodeOnto (acc : ByteArray) : List Char → Option ByteArray
  | [] => some acc
  | [_] => none
  | a :: b :: rest =>
    match value? a, value? b with
    | some hi, some lo => decodeOnto (acc.push (16 * hi + lo)) rest
    | _, _ => none

/-- Reads a byte string; an odd number of digits or any other character is refused. -/
def decode? (text : String) : Option ByteArray :=
  decodeOnto ByteArray.empty text.toList

/-- A number in lower-case digits, without leading zeros. -/
def lower (n : Nat) : String :=
  String.ofList (Nat.toDigits 16 n)

/-- A number in upper-case digits, without leading zeros. -/
def upper (n : Nat) : String :=
  String.ofList ((Nat.toDigits 16 n).map Char.toUpper)

end MeasuredBoot.Hex
