import MeasuredBoot.Text.Graphic
import MeasuredBoot.Text.Hex

/-!
# Quoted text

Free text inside a listing is written between double quotes. `Text.quote` escapes the quote and the
backslash, gives tab, carriage return, newline and NUL their usual letters, and writes every other
character without a mark of its own by its code point, so that a listing stays on one line.
-/

namespace MeasuredBoot.Text

/-- The written form of one character between quotes. -/
def escape (c : Char) : String :=
  match c with
  | '\x00' => "\\0"
  | '\t' => "\\t"
  | '\r' => "\\r"
  | '\n' => "\\n"
  | '\\' => "\\\\"
  | '"' => "\\\""
  | c => if isGraphic c then c.toString else "\\u\x7b" ++ Hex.lower c.toNat ++ "\x7d"

/-- Text between double quotes, with escapes. -/
def quote (text : String) : String :=
  "\"" ++ String.join (text.toList.map escape) ++ "\""

end MeasuredBoot.Text
