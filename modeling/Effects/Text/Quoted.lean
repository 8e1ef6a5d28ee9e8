import Effects.Text.Extending
import Effects.Text.Unprintable

/-!
Text in quotes, to be looked at: each character stands for itself if it can be seen on its own, and
is spelled out otherwise.
-/

namespace Effects.Text

/-- The code point in hexadecimal digits. -/
def codePoint (c : Char) : String :=
  "\\u\x7b" ++ String.ofList (Nat.toDigits 16 c.toNat) ++ "\x7d"

/-- A character as it stands between quotes. What extends the character before it would be lost on a
quote, so it is spelled out wherever it stands. -/
def spell (c : Char) : String :=
  match c with
  | '"' => "\\\""
  | '\\' => "\\\\"
  | '\n' => "\\n"
  | '\r' => "\\r"
  | '\t' => "\\t"
  | '\x00' => "\\0"
  | c => if isExtending c || !isPrintable c then codePoint c else c.toString

/-- The text between quotes, character by character. -/
def quoted (s : String) : String := "\"" ++ String.join (s.toList.map spell) ++ "\""

end Effects.Text
