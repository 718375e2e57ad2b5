/-!
# Layout of text

Columns of a fixed width and numbered listings, as logs and reports use them.
-/

namespace MeasuredBoot.Text

/-- Right-aligns in a column of `width` characters; longer text is kept whole. -/
def alignRight (width : Nat) (text : String) : String :=
  String.ofList (List.replicate (width - text.length) ' ') ++ text

/-- Left-aligns in a column of `width` characters; longer text is kept whole. -/
def alignLeft (width : Nat) (text : String) : String :=
  text ++ String.ofList (List.replicate (width - text.length) ' ')

/-- Writes a number with leading zeros up to `width` digits. -/
def zeroPadded (width : Nat) (digits : String) : String :=
  String.ofList (List.replicate (width - digits.length) '0') ++ digits

/-- One line per entry, each behind its index in a column of `width` characters. -/
def numbered (width : Nat) (entries : List String) : String :=
  String.join (entries.zipIdx.map fun (entry, i) => s!"{alignRight width (toString i)}. {entry}\n")

end MeasuredBoot.Text
