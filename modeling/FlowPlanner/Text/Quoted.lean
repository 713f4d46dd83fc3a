/-
FlowPlanner.Text.Quoted — text between double quotes, for messages.

Quotes, backslashes and the common control characters are written as escapes of
one letter, other characters that cannot be seen by themselves by their code
point.
-/
import FlowPlanner.Text.Unseen

namespace FlowPlanner.Text

/-- The code point of a character in hexadecimal, between braces. -/
def codePoint (c : Char) : String :=
  "\\u\x7b" ++ String.ofList (Nat.toDigits 16 c.toNat) ++ "\x7d"

/-- How a character is written between quotes. -/
def quoteChar (c : Char) : String :=
  match c with
  | '"' => "\\\""
  | '\\' => "\\\\"
  | '\n' => "\\n"
  | '\r' => "\\r"
  | '\t' => "\\t"
  | '\x00' => "\\0"
  | c => if isUnseen c then codePoint c else c.toString

/-- A text between quotes. -/
def quoted (s : String) : String := "\"" ++ String.join (s.toList.map quoteChar) ++ "\""

end FlowPlanner.Text
