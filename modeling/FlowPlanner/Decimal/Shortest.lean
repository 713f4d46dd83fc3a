/-
FlowPlanner.Decimal.Shortest — the fewest decimal digits that read back to a double.

For one digit, two digits, and so on, the two decimals with that many digits
next to the value are tried; the first length with a hit wins, of two hits the
nearer one, and an exact tie goes as the format says.
-/
import FlowPlanner.Decimal.Magnitude

namespace FlowPlanner.Decimal

/-- Which of two equally near decimals is taken. -/
inductive Tie where
  | even
  | up
deriving DecidableEq, Repr

/-- The number of decimal digits of a number, at least one; `fuel` bounds the divisions by ten. -/
def digitCountWithin : Nat → Nat → Nat
  | 0, _ => 1
  | fuel + 1, n => if n < 10 then 1 else 1 + digitCountWithin fuel (n / 10)

/-- The number of decimal digits of a number; zero has one. -/
def digitCount (n : Nat) : Nat := digitCountWithin (n.log2 + 1) n

/-- Drop zeros at the end of the digits; `fuel` bounds how many. -/
def stripWithin : Nat → Scaled → Scaled
  | 0, d => d
  | fuel + 1, d =>
    if d.digits % 10 == 0 then stripWithin fuel ⟨d.digits / 10, d.exponent + 1⟩ else d

/-- The same decimal without zeros at the end of its digits. -/
def Scaled.strip (d : Scaled) : Scaled :=
  if d.digits == 0 then d else stripWithin (digitCount d.digits) d

/-- The power of ten of the leading digit. -/
def Scaled.leading (d : Scaled) : Int := (digitCount d.digits : Int) - 1 + d.exponent

namespace Magnitude

/-- The least `k` with value below `10 ^ k`; the value is not zero. -/
def scale (x : Magnitude) : Int :=
  if x.den ≤ x.num then digitCount (x.num / x.den)
  else 1 - (digitCount ((x.den - 1) / x.num) : Int)

/-- The decimal of `count` digits that reads back and lies nearest to the value, if there is one. -/
def nearest? (x : Magnitude) (tie : Tie) (count : Nat) : Option Scaled :=
  let grid := x.scale - count
  let num := x.num * Nat.pow 10 (-grid).toNat
  let den := x.den * Nat.pow 10 grid.toNat
  let low : Scaled := ⟨num / den, grid⟩
  let high : Scaled := ⟨num / den + 1, grid⟩
  match x.within low, x.within high with
  | false, false => none
  | true, false => some low
  | false, true => some high
  | true, true =>
    match compare (2 * num) ((low.digits + high.digits) * den), tie with
    | .lt, _ => some low
    | .gt, _ => some high
    | .eq, .up => some high
    | .eq, .even => if low.digits % 2 == 0 then some low else some high

/-- The exact decimal value. -/
def exact (x : Magnitude) : Scaled :=
  if 0 ≤ x.exponent then ⟨x.num, 0⟩
  else ⟨x.significand * Nat.pow 5 (-x.exponent).toNat, x.exponent⟩

/-- The shortest decimal that reads back to the double. -/
def shortest (x : Magnitude) (tie : Tie) : Scaled :=
  if x.significand == 0 then ⟨0, 0⟩
  else
    (((List.range 17).findSome? fun i => x.nearest? tie (i + 1)).getD x.exact).strip

end Magnitude

end FlowPlanner.Decimal
