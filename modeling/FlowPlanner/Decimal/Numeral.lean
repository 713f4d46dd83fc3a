/-
FlowPlanner.Decimal.Numeral — decimal numbers in text, and the doubles they stand for.

A numeral is an optional sign, digits with at most one point, and an optional
exponent; at least one digit stands before the exponent. `Numeral.toFloat`
rounds the exact value once.
-/
import FlowPlanner.Decimal.Shortest
import FlowPlanner.Text.Numeral

namespace FlowPlanner.Decimal

/-- A signed decimal number as it is spelled, `± digits * 10 ^ exponent`. -/
structure Numeral where
  negative : Bool
  digits : Nat
  exponent : Int
deriving DecidableEq, Repr

namespace Numeral

/-- The double nearest to the numeral; too large a value is infinite, too small a one is zero. -/
def toFloat (n : Numeral) : Float :=
  let size := (digitCount n.digits : Int) + n.exponent
  let magnitude :=
    if n.digits == 0 then 0.0
    else if 400 < size then 1.0 / 0.0
    else if size < -400 then 0.0
    else Float.ofScientific n.digits (n.exponent < 0) n.exponent.natAbs
  if n.negative then -magnitude else magnitude

/-- An optional sign in front of a text. -/
def sign : List Char → Bool × List Char
  | '-' :: cs => (true, cs)
  | '+' :: cs => (false, cs)
  | cs => (false, cs)

/-- The exponent part of a numeral: nothing, or `e`, an optional sign and digits. -/
def exponent? : List Char → Option Int
  | [] => some 0
  | c :: cs =>
    if c = 'e' ∨ c = 'E' then
      let (negative, body) := sign cs
      (Text.digits? 10 body).map fun n => if negative then -(n : Int) else n
    else none

/-- Digits, point and exponent, after the sign. -/
def unsigned? (negative : Bool) (cs : List Char) : Option Numeral :=
  let whole := cs.takeWhile Text.isDecimal
  let rest := cs.dropWhile Text.isDecimal
  let (fraction, tail) := match rest with
    | '.' :: r => (r.takeWhile Text.isDecimal, r.dropWhile Text.isDecimal)
    | r => ([], r)
  match Text.digits? 10 (whole ++ fraction), exponent? tail with
  | some digits, some e => some ⟨negative, digits, e - fraction.length⟩
  | _, _ => none

/-- Read a whole text as a numeral. -/
def ofChars? (cs : List Char) : Option Numeral :=
  let (negative, body) := sign cs
  unsigned? negative body

end Numeral

/-- A double in text: a numeral, or the words for infinity and not-a-number in any case, with an
optional sign. -/
def float? (s : String) : Option Float :=
  let (negative, body) := Numeral.sign s.toList
  let word := String.ofList (body.map Char.toLower)
  if word == "inf" || word == "infinity" then some (if negative then -(1.0 / 0.0) else 1.0 / 0.0)
  else if word == "nan" then some (0.0 / 0.0)
  else (Numeral.ofChars? s.toList).map Numeral.toFloat

end FlowPlanner.Decimal
