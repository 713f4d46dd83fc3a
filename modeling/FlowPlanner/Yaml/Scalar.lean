/-
FlowPlanner.Yaml.Scalar — what a plain scalar means.

The words for nothing and for truth, integers in four bases, and decimal numbers.
A decimal with a leading zero is text where no type is expected, and so is a
number too large for a double.
-/
import FlowPlanner.Decimal.Layout
import FlowPlanner.Decimal.Numeral
import FlowPlanner.Text.Numeral

namespace FlowPlanner.Yaml

/-- The words for nothing. -/
def isNullWord (s : String) : Bool := s == "null" || s == "Null" || s == "NULL" || s == "~"

/-- The words for truth and falsehood. -/
def boolean? (s : String) : Option Bool :=
  if s == "true" || s == "True" || s == "TRUE" then some true
  else if s == "false" || s == "False" || s == "FALSE" then some false
  else none

/-- Digits only, with a leading zero in front of another digit. -/
def isZeroPadded (cs : List Char) : Bool :=
  match (Decimal.Numeral.sign cs).2 with
  | '0' :: r => !r.isEmpty && r.all Text.isDecimal
  | _ => false

/-- A number after a mark for its base, or a decimal one. -/
def magnitude? (cs : List Char) : Option Nat :=
  match cs with
  | '0' :: 'x' :: r => Text.digits? 16 r
  | '0' :: 'o' :: r => Text.digits? 8 r
  | '0' :: 'b' :: r => Text.digits? 2 r
  | r => if isZeroPadded r then none else Text.digits? 10 r

/-- A non-negative integer, perhaps with a plus sign. -/
def natural? (s : String) : Option Nat :=
  match s.toList with
  | '+' :: r => magnitude? r
  | r => magnitude? r

/-- An integer. -/
def integer? (s : String) : Option Int :=
  match s.toList with
  | '-' :: r => (magnitude? r).map fun n => -(n : Int)
  | _ => (natural? s).map fun n => (n : Int)

/-- A finite double in decimal, perhaps with a sign. -/
def finite? (s : String) : Option Float :=
  match (Decimal.Numeral.ofChars? s.toList).map Decimal.Numeral.toFloat with
  | some x => if x.isFinite then some x else none
  | none => none

/-- A double: decimal, infinite or not a number. -/
def float? (s : String) : Option Float :=
  let unsigned := match s.toList with
    | '+' :: r => String.ofList r
    | r => String.ofList r
  if unsigned == ".inf" || unsigned == ".Inf" || unsigned == ".INF" then some (1.0 / 0.0)
  else if s == "-.inf" || s == "-.Inf" || s == "-.INF" then some (-(1.0 / 0.0))
  else if s == ".nan" || s == ".NaN" || s == ".NAN" then some (0.0 / 0.0)
  else finite? s

/-- Numbers in the text of a hint: shortest digits, positional up to sixteen places. -/
def numberLayout : Decimal.Layout where
  positional := some (-5, 16)
  wholePoint := true
  signedExponent := false
  tie := .even
  notANumber := ".nan"
  infinity := ".inf"
  negativeInfinity := "-.inf"

end FlowPlanner.Yaml
