/-
FlowPlanner.Json — JSON text of a value tree.

A tree keeps the order of its fields. It is written in one of two styles: on one
line without blanks, or one item per line, indented by two blanks per level.
Doubles that are no numbers are written `null`.
-/
import FlowPlanner.Decimal.Layout

namespace FlowPlanner

/-- A tree of JSON values. -/
inductive Json where
  | null
  | whole (n : Nat)
  | number (x : Float)
  | text (s : String)
  | array (items : List Json)
  | object (fields : List (String × Json))

namespace Json

/-! ## §1 Leaves -/

/-- Doubles in JSON: shortest digits, positional for leading exponents from -5 up to 15. -/
def numberLayout : Decimal.Layout where
  positional := some (-5, 16)
  wholePoint := true
  signedExponent := true
  tie := .even
  notANumber := "null"
  infinity := "null"
  negativeInfinity := "null"

/-- Two hexadecimal digits. -/
def hexByte (n : Nat) : String :=
  String.ofList [Nat.digitChar (n / 16 % 16), Nat.digitChar (n % 16)]

/-- How a character is written between quotes: quotes, backslashes and control characters are
escaped, everything else stands for itself. -/
def escapeChar (c : Char) : String :=
  match c with
  | '"' => "\\\""
  | '\\' => "\\\\"
  | '\x08' => "\\b"
  | '\x0c' => "\\f"
  | '\n' => "\\n"
  | '\r' => "\\r"
  | '\t' => "\\t"
  | c => if c.toNat < 0x20 then "\\u00" ++ hexByte c.toNat else c.toString

/-- A text between quotes. -/
def quote (s : String) : String := "\"" ++ String.join (s.toList.map escapeChar) ++ "\""

/-- An unknown value is `null`. -/
def ofOption (q : Option Float) : Json :=
  match q with
  | some x => .number x
  | none => .null

/-! ## §2 Trees -/

/-- What stands between the tokens of a tree. -/
structure Style where
  /-- Before each item and before a closing bracket, at a depth. -/
  lineBreak : Nat → String
  colon : String

/-- One line, no blanks. -/
def Style.compact : Style where
  lineBreak _ := ""
  colon := ":"

/-- One item per line, two blanks per level. -/
def Style.pretty : Style where
  lineBreak depth := "\n" ++ String.ofList (List.replicate (2 * depth) ' ')
  colon := ": "

/-- Items between brackets, each on its line; nothing at all between empty brackets. -/
def bracket (style : Style) (depth : Nat) (left right : String) (items : List String) : String :=
  if items.isEmpty then left ++ right
  else
    left ++ ",".intercalate (items.map (style.lineBreak (depth + 1) ++ ·)) ++ style.lineBreak depth
      ++ right

mutual

/-- The text of a tree that stands at a depth. -/
def write (style : Style) (depth : Nat) : Json → String
  | null => "null"
  | whole n => toString n
  | number x => numberLayout.render x
  | text s => quote s
  | array items => bracket style depth "[" "]" (writeItems style (depth + 1) items)
  | object fields => bracket style depth "\x7b" "\x7d" (writeFields style (depth + 1) fields)

/-- The texts of the items of an array. -/
def writeItems (style : Style) (depth : Nat) : List Json → List String
  | [] => []
  | item :: rest => write style depth item :: writeItems style depth rest

/-- The texts of the fields of an object. -/
def writeFields (style : Style) (depth : Nat) : List (String × Json) → List String
  | [] => []
  | (name, value) :: rest =>
    (quote name ++ style.colon ++ write style depth value) :: writeFields style depth rest

end

/-- The text of a whole tree. -/
def render (style : Style) (tree : Json) : String := tree.write style 0

end Json

end FlowPlanner
