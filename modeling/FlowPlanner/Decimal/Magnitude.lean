/-
FlowPlanner.Decimal.Magnitude — what a double stands for, as exact integers.

A finite double is `significand * 2 ^ exponent` with a sign. All decimal text
is chosen by integer arithmetic on these two numbers. `Magnitude.within` is the
test that a decimal reads back to the double: it lies between the halfway
points to the two neighbours, ends included when the significand is even.
-/

namespace FlowPlanner.Decimal

/-- A finite non-negative double, `significand * 2 ^ exponent`. -/
structure Magnitude where
  significand : Nat
  exponent : Int
  /-- The double below is half as far away as the double above. -/
  tightBelow : Bool
deriving DecidableEq, Repr

/-- A decimal number, `digits * 10 ^ exponent`. -/
structure Scaled where
  digits : Nat
  exponent : Int
deriving DecidableEq, Repr

/-- The three kinds of doubles. -/
inductive Reading where
  | notANumber
  | infinite (negative : Bool)
  | finite (negative : Bool) (magnitude : Magnitude)

namespace Reading

/-- Take the bits of a double apart. -/
def ofBits (bits : UInt64) : Reading :=
  let negative := bits >>> 63 == 1
  let power := ((bits >>> 52) &&& 0x7FF).toNat
  let fraction := (bits &&& 0xFFFFFFFFFFFFF).toNat
  if power == 0x7FF then
    if fraction == 0 then .infinite negative else .notANumber
  else if power == 0 then .finite negative ⟨fraction, -1074, false⟩
  else .finite negative ⟨Nat.pow 2 52 + fraction, (power : Int) - 1075, fraction == 0 && power != 1⟩

/-- What a double stands for. -/
def ofFloat (x : Float) : Reading := ofBits x.toBits

end Reading

/-- Compare `a * 10 ^ i` with `b * 2 ^ j`. -/
def compareScaled (a : Nat) (i : Int) (b : Nat) (j : Int) : Ordering :=
  compare (a * Nat.pow 10 i.toNat * Nat.pow 2 (-j).toNat)
    (b * Nat.pow 2 j.toNat * Nat.pow 10 (-i).toNat)

namespace Magnitude

/-- The numerator of the value over the denominator `den`. -/
def num (x : Magnitude) : Nat := x.significand * Nat.pow 2 x.exponent.toNat

/-- The power of two under the value. -/
def den (x : Magnitude) : Nat := Nat.pow 2 (-x.exponent).toNat

/-- The decimal reads back to this double. -/
def within (x : Magnitude) (d : Scaled) : Bool :=
  let lower := 4 * x.significand - (if x.tightBelow then 1 else 2)
  let upper := 4 * x.significand + 2
  let closed := x.significand % 2 == 0
  let fromBelow := compareScaled d.digits d.exponent lower (x.exponent - 2)
  let fromAbove := compareScaled d.digits d.exponent upper (x.exponent - 2)
  (fromBelow == .gt || closed && fromBelow == .eq) &&
    (fromAbove == .lt || closed && fromAbove == .eq)

end Magnitude

end FlowPlanner.Decimal
