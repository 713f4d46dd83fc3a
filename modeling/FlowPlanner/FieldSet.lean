/-
FlowPlanner.FieldSet — finite sets of column numbers.

A set is kept as a strictly ascending list, so that two sets with the same
members are equal values (`FieldSet.ext`) and every text that lists the
members has one order. Members are reached through `∈` only; each operation
has one lemma that says what it does to membership.
-/

namespace FlowPlanner

/-- A finite set of column numbers, listed in ascending order. -/
structure FieldSet where
  toList : List Nat
  ascending : toList.Pairwise (· < ·)
deriving DecidableEq

namespace FieldSet

/-! ## §1 Ascending lists -/

/-- Put a number into its place in an ascending list; a number that is there stays once. -/
def insertSorted (f : Nat) : List Nat → List Nat
  | [] => [f]
  | g :: gs => if f < g then f :: g :: gs else if f = g then g :: gs else g :: insertSorted f gs

theorem mem_insertSorted {f x : Nat} {gs : List Nat} :
    x ∈ insertSorted f gs ↔ x = f ∨ x ∈ gs := by
  induction gs with
  | nil => simp [insertSorted]
  | cons g gs ih =>
    simp only [insertSorted]
    split
    · simp
    · split
      · rename_i h; subst h; simp
      · simp only [List.mem_cons, ih]
        constructor
        · rintro (h | h | h) <;> simp [h]
        · rintro (h | h | h) <;> simp [h]

theorem pairwise_insertSorted {f : Nat} {gs : List Nat} (h : gs.Pairwise (· < ·)) :
    (insertSorted f gs).Pairwise (· < ·) := by
  induction gs with
  | nil => simp [insertSorted]
  | cons g gs ih =>
    obtain ⟨hg, hgs⟩ := List.pairwise_cons.1 h
    simp only [insertSorted]
    split
    · rename_i hlt
      refine List.pairwise_cons.2 ⟨?_, h⟩
      intro x hx
      rcases List.mem_cons.1 hx with rfl | hx
      · exact hlt
      · exact Nat.lt_trans hlt (hg x hx)
    · split
      · exact h
      · rename_i h1 h2
        refine List.pairwise_cons.2 ⟨?_, ih hgs⟩
        intro x hx
        rcases mem_insertSorted.1 hx with rfl | hx
        · omega
        · exact hg x hx

/-! ## §2 Sets -/

/-- The set without members. -/
def empty : FieldSet := ⟨[], .nil⟩

/-- The set with one more member. -/
def insert (f : Nat) (s : FieldSet) : FieldSet :=
  ⟨insertSorted f s.toList, pairwise_insertSorted s.ascending⟩

/-- The members of a list; order and repeats are forgotten. -/
def ofList (fs : List Nat) : FieldSet := fs.foldr insert empty

/-- All members of both sets. -/
def union (s t : FieldSet) : FieldSet := s.toList.foldr insert t

/-- The set has no member. -/
def isEmpty (s : FieldSet) : Bool := s.toList.isEmpty

/-- The number of members. -/
def size (s : FieldSet) : Nat := s.toList.length

instance : Membership Nat FieldSet := ⟨fun s f => f ∈ s.toList⟩

instance (f : Nat) (s : FieldSet) : Decidable (f ∈ s) := inferInstanceAs (Decidable (f ∈ s.toList))

/-- Every member of the first set belongs to the second. -/
def subset (s t : FieldSet) : Bool := s.toList.all (· ∈ t)

instance : Inhabited FieldSet := ⟨empty⟩

/-! ## §3 Membership -/

theorem mem_def {f : Nat} {s : FieldSet} : f ∈ s ↔ f ∈ s.toList := Iff.rfl

@[simp] theorem not_mem_empty (f : Nat) : f ∉ empty := by simp [mem_def, empty]

@[simp] theorem mem_insert {f x : Nat} {s : FieldSet} : x ∈ insert f s ↔ x = f ∨ x ∈ s :=
  mem_insertSorted

@[simp] theorem mem_ofList {x : Nat} {fs : List Nat} : x ∈ ofList fs ↔ x ∈ fs := by
  induction fs with
  | nil => simp [ofList]
  | cons f fs ih =>
    have : ofList (f :: fs) = insert f (ofList fs) := rfl
    simp [this, ih]

@[simp] theorem mem_union {x : Nat} {s t : FieldSet} : x ∈ union s t ↔ x ∈ s ∨ x ∈ t := by
  have key : ∀ l : List Nat, x ∈ l.foldr insert t ↔ x ∈ l ∨ x ∈ t := by
    intro l
    induction l with
    | nil => simp
    | cons f l ih => simp [ih, or_assoc]
  exact key s.toList

theorem subset_iff {s t : FieldSet} : s.subset t = true ↔ ∀ f, f ∈ s → f ∈ t := by
  simp [subset, mem_def]

theorem isEmpty_iff {s : FieldSet} : s.isEmpty = true ↔ ∀ f, f ∉ s := by
  simp [isEmpty, mem_def, List.eq_nil_iff_forall_not_mem]

/-- Two ascending lists with the same members are the same list. -/
theorem eq_of_mem_iff : ∀ {l m : List Nat}, l.Pairwise (· < ·) → m.Pairwise (· < ·) →
    (∀ x, x ∈ l ↔ x ∈ m) → l = m
  | [], [], _, _, _ => rfl
  | [], b :: m, _, _, h => absurd ((h b).2 (by simp)) (by simp)
  | a :: l, [], _, _, h => absurd ((h a).1 (by simp)) (by simp)
  | a :: l, b :: m, hl, hm, h => by
    obtain ⟨ha, hl'⟩ := List.pairwise_cons.1 hl
    obtain ⟨hb, hm'⟩ := List.pairwise_cons.1 hm
    have hab : a = b := by
      have h1 : a = b ∨ a ∈ m := by simpa using (h a).1 (by simp)
      have h2 : b = a ∨ b ∈ l := by simpa using (h b).2 (by simp)
      rcases h1 with h1 | h1
      · exact h1
      · rcases h2 with h2 | h2
        · exact h2.symm
        · have := hb a h1
          have := ha b h2
          omega
    subst hab
    rw [eq_of_mem_iff hl' hm' (fun x => ?_)]
    constructor
    · intro hx
      have := (h x).1 (by simp [hx])
      rcases List.mem_cons.1 this with rfl | h'
      · exact absurd (ha x hx) (Nat.lt_irrefl x)
      · exact h'
    · intro hx
      have := (h x).2 (by simp [hx])
      rcases List.mem_cons.1 this with rfl | h'
      · exact absurd (hb x hx) (Nat.lt_irrefl x)
      · exact h'

/-- A set is determined by its members. -/
theorem ext {s t : FieldSet} (h : ∀ f, f ∈ s ↔ f ∈ t) : s = t := by
  obtain ⟨l, hl⟩ := s
  obtain ⟨m, hm⟩ := t
  have : l = m := eq_of_mem_iff hl hm h
  subst this
  rfl

end FieldSet

end FlowPlanner
