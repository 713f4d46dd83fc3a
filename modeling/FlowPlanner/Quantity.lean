/-
FlowPlanner.Quantity — the arithmetic that sizes and costs are computed in.

Estimation, pricing and search are written once for any type of quantities. A
program runs them on doubles; a statement about exact costs takes an exact type
instead. A quantity may be unknown: `Option α`, where `none` absorbs whatever it
is combined with (`sum?`, `add?`, `mul?`, `div?`).
-/

namespace FlowPlanner

/-- What estimation and pricing need of a number type. -/
class Quantity (α : Type) where
  ofNat : Nat → α
  ofFloat : Float → α
  add : α → α → α
  sub : α → α → α
  mul : α → α → α
  div : α → α → α
  /-- The larger one; the second one when neither is larger. -/
  max : α → α → α
  /-- The smaller one; the second one when neither is smaller. -/
  min : α → α → α
  pow : α → α → α
  log2 : α → α
  /-- The nearest whole number, halves away from zero. -/
  round : α → α
  lt : α → α → Bool
  le : α → α → Bool
  /-- The order by which totals are ranked. -/
  rank : α → α → Ordering

namespace Quantity

variable {α : Type} [Quantity α]

/-! ## §1 Unknown quantities -/

/-- The sum; unknown if a part is. -/
def add? : Option α → Option α → Option α
  | some a, some b => some (add a b)
  | _, _ => none

/-- The product; unknown if a factor is. -/
def mul? : Option α → Option α → Option α
  | some a, some b => some (mul a b)
  | _, _ => none

/-- The larger one; unknown if either is. -/
def max? : Option α → Option α → Option α
  | some a, some b => some (max a b)
  | _, _ => none

/-- The sum of a list from left to right, zero for no parts; unknown if a part is. -/
def sum? : List (Option α) → Option α
  | [] => some (ofNat 0)
  | q :: qs => qs.foldl add? q

/-- The quotient of two known quantities; unknown unless the divisor is positive. -/
def ratio? : Option α → Option α → Option α
  | some a, some b => if lt (ofNat 0) b then some (div a b) else none
  | _, _ => none

@[simp] theorem add?_none_left (b : Option α) : add? none b = none := rfl
@[simp] theorem add?_none_right (a : Option α) : add? a none = none := by cases a <;> rfl
@[simp] theorem add?_some (a b : α) : add? (some a) (some b) = some (add a b) := rfl
@[simp] theorem mul?_none_left (b : Option α) : mul? none b = none := rfl
@[simp] theorem mul?_none_right (a : Option α) : mul? a none = none := by cases a <;> rfl
@[simp] theorem mul?_some (a b : α) : mul? (some a) (some b) = some (mul a b) := rfl

theorem isSome_add? (a b : Option α) : (add? a b).isSome = (a.isSome && b.isSome) := by
  cases a <;> cases b <;> rfl

theorem isSome_mul? (a b : Option α) : (mul? a b).isSome = (a.isSome && b.isSome) := by
  cases a <;> cases b <;> rfl

/-- A sum is known exactly when all its parts are. -/
theorem isSome_sum? (qs : List (Option α)) : (sum? qs).isSome = qs.all (·.isSome) := by
  have key : ∀ (qs : List (Option α)) (acc : Option α),
      (qs.foldl add? acc).isSome = (acc.isSome && qs.all (·.isSome)) := by
    intro qs
    induction qs with
    | nil => simp
    | cons q qs ih => intro acc; simp [ih, isSome_add?, Bool.and_assoc]
  cases qs with
  | nil => rfl
  | cons q qs => simp [sum?, key]

end Quantity

/-! ## §2 Doubles -/

/-- A whole number that orders doubles totally: negative zero stands below zero. -/
def floatRank (x : Float) : Int :=
  let bits := x.toBits.toNat
  if bits < Nat.pow 2 63 then bits else Int.pow 2 63 - 1 - (bits : Int)

/-- Doubles. Of a number and a NaN, `max` and `min` give the number, and of two zeros the second
one. -/
instance : Quantity Float where
  ofNat n := Float.ofNat n
  ofFloat x := x
  add x y := x + y
  sub x y := x - y
  mul x y := x * y
  div x y := x / y
  max x y := if x.isNaN || x ≤ y then y else x
  min x y := if x.isNaN || y ≤ x then y else x
  pow x y := Float.pow x y
  log2 x := Float.log2 x
  round x := Float.round x
  lt x y := x < y
  le x y := x ≤ y
  rank x y := compare (floatRank x) (floatRank y)

end FlowPlanner
