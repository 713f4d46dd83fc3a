/-
FlowPlanner.Decimal.Layout — how chosen digits are written down.

A `Layout` holds the decisions of one text format. The formats themselves are
values of this type and stand in the modules that write them. `fixed` writes a
set number of places, rounded from the exact value with ties to even.
-/
import FlowPlanner.Decimal.Shortest

namespace FlowPlanner.Decimal

/-- The decisions of one number format. -/
structure Layout where
  /-- Leading exponents written positionally, first and first past the end; `none` is all. -/
  positional : Option (Int × Int)
  /-- A whole number written positionally ends in `.0`. -/
  wholePoint : Bool
  /-- A positive exponent carries a plus sign. -/
  signedExponent : Bool
  /-- Which of two equally near decimals is taken. -/
  tie : Tie
  notANumber : String
  infinity : String
  negativeInfinity : String

/-- `n` zeros. -/
def zeros (n : Nat) : String := String.ofList (List.replicate n '0')

/-- Digits with a point put `places` digits from the right; no point when `places` is zero. -/
def withPoint (digits : Nat) (places : Nat) : String :=
  if places == 0 then toString digits
  else
    let all := (toString digits).toList
    let padded := List.replicate (places + 1 - all.length) '0' ++ all
    let whole := padded.length - places
    String.ofList (padded.take whole) ++ "." ++ String.ofList (padded.drop whole)

namespace Layout

/-- The leading exponent is written positionally. -/
def isPositional (l : Layout) (leading : Int) : Bool :=
  match l.positional with
  | none => true
  | some (first, past) => first ≤ leading && leading < past

/-- The digits with their point, without an exponent. -/
def plain (l : Layout) (d : Scaled) : String :=
  if 0 ≤ d.exponent then
    toString d.digits ++ zeros d.exponent.toNat ++ (if l.wholePoint then ".0" else "")
  else withPoint d.digits (-d.exponent).toNat

/-- One digit, the point and the rest, and the exponent; a single digit has no point. -/
def scientific (l : Layout) (d : Scaled) : String :=
  let e := d.leading
  let sign := if e < 0 then "-" else if l.signedExponent then "+" else ""
  withPoint d.digits (digitCount d.digits - 1) ++ "e" ++ sign ++ toString e.natAbs

/-- The text of a non-negative decimal. -/
def write (l : Layout) (d : Scaled) : String :=
  if l.isPositional d.leading then l.plain d else l.scientific d

/-- The text of a double: the sign, then the shortest digits that read back. -/
def render (l : Layout) (x : Float) : String :=
  match Reading.ofFloat x with
  | .notANumber => l.notANumber
  | .infinite negative => if negative then l.negativeInfinity else l.infinity
  | .finite negative m => (if negative then "-" else "") ++ l.write (m.shortest l.tie)

end Layout

/-- The quotient rounded to a whole number, an exact half to the even neighbour. -/
def roundQuotient (num den : Nat) : Nat :=
  let q := num / den
  match compare (2 * (num % den)) den with
  | .lt => q
  | .gt => q + 1
  | .eq => if q % 2 == 0 then q else q + 1

/-- The text of a double with a set number of places, rounded from its exact value. -/
def fixed (places : Nat) (x : Float) : String :=
  match Reading.ofFloat x with
  | .notANumber => "NaN"
  | .infinite negative => if negative then "-inf" else "inf"
  | .finite negative m =>
    (if negative then "-" else "") ++
      withPoint (roundQuotient (m.num * Nat.pow 10 places) m.den) places

end FlowPlanner.Decimal
