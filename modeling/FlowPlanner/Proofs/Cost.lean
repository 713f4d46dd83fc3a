/-
FlowPlanner.Proofs.Cost — costs in exact arithmetic.

Where arithmetic does not round (`Quantity.Exact`), sums of prices depend neither
on their order nor on their grouping, so costs are a commutative monoid, and a
total that is no more than another one stays so when the same is added to both
(`NoMore.add`). A model that weighs costs therefore keeps their order when the same is
added to both (`CostModel.keepsOrder_of_weighs`); of a model with totals of its own
this is asked. Rational numbers are such quantities. That totals are ranked by a
total order (`Quantity.Ordered`) and that comparing them is transitive
(`Quantity.Transitive`) is asked apart, as doubles have it too.
-/
import FlowPlanner.Decimal.Magnitude
import FlowPlanner.Optimizer
import Mathlib.Algebra.Group.Defs
import Mathlib.Algebra.Order.Floor.Defs
import Mathlib.Data.Int.Log
import Mathlib.Data.Prod.Lex
import Mathlib.Data.Rat.Floor

namespace FlowPlanner

/-! ## §1 Laws of exact quantities -/

/-- What holds of quantities as long as nothing is rounded. -/
class Quantity.Exact (α : Type) [Quantity α] : Prop where
  add_comm (a b : α) : add a b = add b a
  add_assoc (a b c : α) : add (add a b) c = add a (add b c)
  zero_add (a : α) : add (ofNat 0) a = a
  add_mul (a b c : α) : mul (add a b) c = add (mul a c) (mul b c)
  le_trans {a b c : α} : le a b = true → le b c = true → le a c = true
  le_total (a b : α) : le a b = true ∨ le b a = true
  le_antisymm {a b : α} : le a b = true → le b a = true → a = b
  add_le_add {a b : α} (c : α) : le a b = true → le (add a c) (add b c) = true
  /-- Totals are ranked by their size. -/
  isLE_rank (a b : α) : (rank a b).isLE = le a b

/-- Totals are ranked by a total order, up to ties. -/
class Quantity.Ordered (α : Type) [Quantity α] : Prop where
  rank_trans {a b c : α} : (rank a b).isLE = true → (rank b c).isLE = true → (rank a c).isLE = true
  rank_total (a b : α) : (rank a b).isLE = true ∨ (rank b a).isLE = true

instance {α : Type} [Quantity α] [Quantity.Exact α] : Quantity.Ordered α where
  rank_trans h h' := by
    rw [Quantity.Exact.isLE_rank] at *
    exact Quantity.Exact.le_trans h h'
  rank_total a b := by
    rw [Quantity.Exact.isLE_rank, Quantity.Exact.isLE_rank]
    exact Quantity.Exact.le_total a b

/-- Doubles are ranked as whole numbers. -/
instance : Quantity.Ordered Float where
  rank_trans h h' := by
    simp only [Quantity.rank, Int.isLE_compare] at *
    exact h.trans h'
  rank_total a b := by
    simp only [Quantity.rank, Int.isLE_compare]
    exact Int.le_total _ _

/-- What is no larger than something that is no larger than a third is no larger than the third. -/
class Quantity.Transitive (α : Type) [Quantity α] : Prop where
  le_trans {a b c : α} : le a b = true → le b c = true → le a c = true

instance {α : Type} [Quantity α] [Quantity.Exact α] : Quantity.Transitive α where
  le_trans := Quantity.Exact.le_trans

section

open Float.Model

/-- Where a double stands among the others: by its sign first, then by exponent and mantissa. Those
of negative numbers count downwards; a NaN stands nowhere. -/
def floatPlace? : UnpackedFloat → Option (ℤ ×ₗ ℤ ×ₗ ℤ)
  | .notANumber => none
  | .infinity .negative => some (toLex (-2, toLex (0, 0)))
  | .finite .negative mantissa exponent _ => some (toLex (-1, toLex (-exponent, -mantissa)))
  | .zero _ => some (toLex (0, toLex (0, 0)))
  | .finite .positive mantissa exponent _ => some (toLex (1, toLex (exponent, mantissa)))
  | .infinity .positive => some (toLex (2, toLex (0, 0)))

theorem isLE_compare_magnitudes (e f : ℤ) (m n : ℕ) :
    ((compare e f).then (compare m n)).isLE = true ↔ e < f ∨ e = f ∧ m ≤ n := by
  rcases lt_trichotomy e f with h | rfl | h
  · simp [compare_lt_iff_lt.2 h, h]
  · simp [Nat.isLE_compare]
  · simp [compare_gt_iff_gt.2 h, h.ne', h.le]

theorem isGE_compare_magnitudes (e f : ℤ) (m n : ℕ) :
    ((compare e f).then (compare m n)).isGE = true ↔ f < e ∨ e = f ∧ n ≤ m := by
  rw [← Ordering.isLE_swap, Ordering.swap_then, Int.compare_swap, Nat.compare_swap,
    isLE_compare_magnitudes, eq_comm]

/-- Doubles are compared by their places. -/
theorem le_iff_floatPlace? (x y : UnpackedFloat) : x.le y = true ↔
    ∃ a b, floatPlace? x = some a ∧ floatPlace? y = some b ∧ a ≤ b := by
  have hsame : ∀ s : UnpackedFloat.Sign, compare s s = .eq := by
    rintro (_ | _) <;> rfl
  have hnegative : compare UnpackedFloat.Sign.negative .positive = .lt := rfl
  have hpositive : compare UnpackedFloat.Sign.positive .negative = .gt := rfl
  unfold UnpackedFloat.le UnpackedFloat.compare floatPlace?
  -- Two numbers of one sign are the cases of the lemmas above; the others are told apart by form.
  rcases x with ⟨_ | _⟩ | _ | _ | ⟨_ | _, _, _, _⟩ <;>
    rcases y with ⟨_ | _⟩ | _ | _ | ⟨_ | _, _, _, _⟩ <;>
      dsimp only <;>
        simp [Prod.Lex.le_iff, hsame, hnegative, hpositive, isLE_compare_magnitudes,
          isGE_compare_magnitudes]

end

/-- A NaN is comparable to nothing, and all other doubles are in line. -/
instance : Quantity.Transitive Float where
  le_trans {a b c} h h' := by
    have hmodel : ∀ x y : Float,
        Quantity.le x y = true ↔ x.toModel.unpack.le y.toModel.unpack = true := by
      intro x y
      show decide (x ≤ y) = true ↔ _
      rw [decide_eq_true_iff]
      show Float.le x y = true ↔ _
      unfold Float.le
      rw [decide_eq_true_iff]
      rfl
    rw [hmodel, le_iff_floatPlace?] at *
    obtain ⟨x, y, hx, hy, hxy⟩ := h
    obtain ⟨y', z, hy', hz, hyz⟩ := h'
    obtain rfl := Option.some.inj (hy.symm.trans hy')
    exact ⟨x, z, hx, hz, hxy.trans hyz⟩

variable {α : Type} [Quantity α] [Quantity.Exact α]

namespace Quantity

theorem add?_comm (a b : Option α) : add? a b = add? b a := by
  cases a <;> cases b <;> simp [Exact.add_comm]

theorem add?_assoc (a b c : Option α) : add? (add? a b) c = add? a (add? b c) := by
  cases a <;> cases b <;> cases c <;> simp [Exact.add_assoc]

theorem zero_add? (a : Option α) : add? (some (ofNat 0)) a = a := by
  cases a <;> simp [Exact.zero_add]

end Quantity

open Quantity

attribute [ext] Cost

instance : Zero (Cost α) := ⟨Cost.zero⟩

instance : AddCommMonoid (Cost α) where
  add_assoc _ _ _ := Cost.ext (add?_assoc _ _ _) (add?_assoc _ _ _) (add?_assoc _ _ _)
  zero_add _ := Cost.ext (zero_add? _) (zero_add? _) (zero_add? _)
  add_zero _ := Cost.ext ((add?_comm _ _).trans (zero_add? _))
    ((add?_comm _ _).trans (zero_add? _)) ((add?_comm _ _).trans (zero_add? _))
  add_comm _ _ := Cost.ext (add?_comm _ _) (add?_comm _ _) (add?_comm _ _)
  nsmul := nsmulRec

/-- The total of a sum is the sum of the totals. -/
theorem Cost.total_add (w : Weights α) (a b : Cost α) :
    (a + b).total w = add? (a.total w) (b.total w) := by
  obtain ⟨n, d, p⟩ := a
  obtain ⟨n', d', p'⟩ := b
  have hshuffle : ∀ a b c a' b' c' : α,
      Quantity.add (Quantity.add (Quantity.add a a') (Quantity.add b b')) (Quantity.add c c') =
        Quantity.add (Quantity.add (Quantity.add a b) c)
          (Quantity.add (Quantity.add a' b') c') := by
    intro a b c a' b' c'
    have hassoc : Std.Associative (Quantity.add (α := α)) := ⟨Exact.add_assoc⟩
    have hcomm : Std.Commutative (Quantity.add (α := α)) := ⟨Exact.add_comm⟩
    ac_rfl
  cases n <;> cases d <;> cases p <;> cases n' <;> cases d' <;> cases p' <;> try rfl
  simp only [Cost.total, Cost.network_add, Cost.disk_add, Cost.cpu_add, add?_some, Exact.add_mul,
    hshuffle]

/-! ## §2 The order of totals -/

/-- One total ranks no later than another one. -/
def NoMore (a b : Option α) : Prop := (Ranked.compareTotals a b).isLE = true

omit [Exact α] in
theorem noMore_none (a : Option α) : NoMore a none := by
  cases a <;> rfl

theorem noMore_some_iff {a : Option α} {y : α} :
    NoMore a (some y) ↔ ∃ x, a = some x ∧ le x y = true := by
  cases a with
  | none => simp [NoMore, Ranked.compareTotals]
  | some x => simp [NoMore, Ranked.compareTotals, Exact.isLE_rank]

theorem noMore_of_le {x y : α} (h : le x y = true) : NoMore (some x) (some y) :=
  noMore_some_iff.2 ⟨x, rfl, h⟩

namespace NoMore

section

omit [Exact α]
variable [Ordered α]

theorem total (a b : Option α) : NoMore a b ∨ NoMore b a := by
  cases a with
  | none => exact .inr (noMore_none b)
  | some x =>
    cases b with
    | none => exact .inl (noMore_none _)
    | some y => exact Ordered.rank_total x y

theorem refl (a : Option α) : NoMore a a := (total a a).elim id id

theorem trans {a b c : Option α} (h : NoMore a b) (h' : NoMore b c) : NoMore a c := by
  cases c with
  | none => exact noMore_none a
  | some z =>
    cases b with
    | none => simp [NoMore, Ranked.compareTotals] at h'
    | some y =>
      cases a with
      | none => simp [NoMore, Ranked.compareTotals] at h
      | some x => exact Ordered.rank_trans (b := y) h h'

end

theorem antisymm {a b : Option α} (h : NoMore a b) (h' : NoMore b a) : a = b := by
  cases b with
  | none =>
    cases a with
    | none => rfl
    | some x =>
      obtain ⟨y, hy, -⟩ := noMore_some_iff.1 h'
      simp at hy
  | some y =>
    obtain ⟨x, rfl, hxy⟩ := noMore_some_iff.1 h
    obtain ⟨y', hy', hyx⟩ := noMore_some_iff.1 h'
    obtain rfl := Option.some.inj hy'
    rw [Exact.le_antisymm hxy hyx]

/-- Adding the same to both sides keeps the order. -/
theorem add {a b : Option α} (h : NoMore a b) (c : Option α) : NoMore (add? a c) (add? b c) := by
  cases c with
  | none => simpa using noMore_none _
  | some z =>
    cases b with
    | none => exact noMore_none _
    | some y =>
      obtain ⟨x, rfl, hxy⟩ := noMore_some_iff.1 h
      exact noMore_of_le (Exact.add_le_add z hxy)

end NoMore

omit [Exact α] in
/-- Totals of the model keep their order when the same cost is added to both sides. -/
def CostModel.KeepsOrder (m : CostModel α) : Prop :=
  ∀ {a b : Cost α} (c : Cost α), NoMore (m.total a) (m.total b) →
    NoMore (m.total (a + c)) (m.total (b + c))

/-- Weighted sums keep their order. -/
theorem CostModel.keepsOrder_of_weighs {m : CostModel α}
    (h : ∀ c, m.total c = c.total m.weights) : m.KeepsOrder := by
  intro a b c hab
  rw [h, h] at hab ⊢
  rw [Cost.total_add, Cost.total_add]
  exact hab.add _

/-! ## §3 Rational numbers -/

/-- The rational number that a double stands for; zero if it stands for none. -/
def rationalOfFloat (x : Float) : ℚ :=
  match Decimal.Reading.ofFloat x with
  | .finite negative m => if negative then -mkRat m.num m.den else mkRat m.num m.den
  | _ => 0

/-- Rational numbers. Exponents and logarithms are rounded down to whole numbers. -/
instance : Quantity ℚ where
  ofNat n := n
  ofFloat := rationalOfFloat
  add a b := a + b
  sub a b := a - b
  mul a b := a * b
  div a b := a / b
  max a b := if a ≤ b then b else a
  min a b := if b ≤ a then b else a
  pow a b := a ^ b.floor
  log2 a := Int.log 2 a
  round a := if a < 0 then -((-a + 1 / 2).floor : ℚ) else (a + 1 / 2).floor
  lt a b := decide (a < b)
  le a b := decide (a ≤ b)
  rank a b := compareOfLessAndEq a b

instance : Quantity.Exact ℚ where
  add_comm := Rat.add_comm
  add_assoc := Rat.add_assoc
  zero_add a := by simp [Quantity.add, Quantity.ofNat]
  add_mul a b c := Rat.add_mul a b c
  le_trans h h' := by
    simp only [Quantity.le, decide_eq_true_eq] at *
    exact h.trans h'
  le_total a b := by
    simpa only [Quantity.le, decide_eq_true_eq] using Rat.le_total
  le_antisymm h h' := by
    simp only [Quantity.le, decide_eq_true_eq] at *
    exact le_antisymm h h'
  add_le_add c h := by
    simp only [Quantity.le, Quantity.add, decide_eq_true_eq] at *
    exact Rat.add_le_add_right.2 h
  isLE_rank a b := by
    simp only [Quantity.rank, Quantity.le, compareOfLessAndEq]
    split
    · rename_i h
      simp [h.le]
    · split
      · rename_i h
        simp [h]
      · rename_i h h'
        have hlt : ¬ a ≤ b := fun hle => (hle.lt_or_eq).elim h h'
        simp [hlt]

end FlowPlanner
