/-
FlowPlanner.Plan.Choices — which candidate a plan was built on, per open fork.

Two plans fit together when they made no two different choices for one fork;
`Choices.merge?` is the union of their choices, or nothing.
-/
import FlowPlanner.Graph
import FlowPlanner.Table

namespace FlowPlanner

/-- The number of a candidate plan within one run. -/
abbrev PlanId := Nat

/-- For every open fork above a plan, the candidate of the fork that the plan reads. -/
abbrev Choices := Table NodeId PlanId

namespace Choices

/-- Choices with one more; nothing if the fork was decided otherwise. -/
def choose? (c : Choices) (fork : NodeId) (plan : PlanId) : Option Choices :=
  match c.find? fork with
  | some chosen => if chosen == plan then some c else none
  | none => some (c.insert fork plan)

/-- The union of two maps of choices, unless they disagree on a fork. -/
def merge? (a b : Choices) : Option Choices := b.entries.foldlM (fun c e => choose? c e.1 e.2) a

/-! ## Merging -/

/-- No fork was decided in two ways. -/
def Agree (a b : Choices) : Prop :=
  ∀ fork x y, a.find? fork = some x → b.find? fork = some y → x = y

/-- One more choice adds that choice and nothing else. -/
theorem find?_choose? {c c' : Choices} {fork : NodeId} {plan : PlanId}
    (h : choose? c fork plan = some c') {k : NodeId} {x : PlanId} :
    c'.find? k = some x ↔ c.find? k = some x ∨ (k = fork ∧ x = plan) := by
  unfold choose? at h
  split at h
  · rename_i chosen hc
    split at h
    · rename_i heq
      obtain rfl : c = c' := by simpa using h
      obtain rfl : chosen = plan := by simpa using heq
      constructor
      · exact .inl
      · rintro (h | ⟨rfl, rfl⟩)
        · exact h
        · exact hc
    · simp at h
  · rename_i hc
    obtain rfl : c.insert fork plan = c' := by simpa using h
    rw [Table.find?_insert]
    by_cases hk : k = fork
    · subst hk
      simp [hc, eq_comm]
    · simp [hk]

theorem exists_choose? {c : Choices} {fork : NodeId} {plan : PlanId}
    (h : ∀ x, c.find? fork = some x → x = plan) : ∃ c', choose? c fork plan = some c' := by
  unfold choose?
  split
  · rename_i chosen hc
    simp [h chosen hc]
  · simp

/-- Entries chosen one after the other: what was there and the entries. -/
theorem find?_chooseAll : ∀ {es : List (NodeId × PlanId)} {a m : Choices},
    es.foldlM (fun c e => choose? c e.1 e.2) a = some m → ∀ {k x},
      m.find? k = some x ↔ a.find? k = some x ∨ (k, x) ∈ es
  | [], a, m, h, k, x => by
    obtain rfl : a = m := by simpa using h
    simp
  | e :: es, a, m, h, k, x => by
    rw [List.foldlM_cons] at h
    obtain ⟨c, hc, hm⟩ := Option.bind_eq_some_iff.1 h
    rw [find?_chooseAll hm, find?_choose? hc, List.mem_cons, Prod.ext_iff, or_assoc]

theorem exists_chooseAll : ∀ {es : List (NodeId × PlanId)} {a : Choices},
    es.Pairwise (fun d e => compare d.1 e.1 = .lt) →
      (∀ e ∈ es, ∀ x, a.find? e.1 = some x → x = e.2) →
        ∃ m, es.foldlM (fun c e => choose? c e.1 e.2) a = some m
  | [], a, _, _ => ⟨a, rfl⟩
  | e :: es, a, hes, h => by
    obtain ⟨he, hes⟩ := List.pairwise_cons.1 hes
    obtain ⟨c, hc⟩ := exists_choose? (h e List.mem_cons_self)
    obtain ⟨m, hm⟩ := exists_chooseAll (a := c) hes (by
      intro d hd x hx
      rcases (find?_choose? hc).1 hx with hx | ⟨hde, -⟩
      · exact h d (List.mem_cons_of_mem e hd) x hx
      · have hlt := he d hd
        rw [hde] at hlt
        simp at hlt)
    exact ⟨m, by rw [List.foldlM_cons, hc]; exact hm⟩

/-- A merged map decides a fork as either part does. -/
theorem find?_merge? {a b m : Choices} (h : merge? a b = some m) {k : NodeId} {x : PlanId} :
    m.find? k = some x ↔ a.find? k = some x ∨ b.find? k = some x := by
  rw [find?_chooseAll h, Table.mem_entries_iff]

theorem agree_of_merge? {a b m : Choices} (h : merge? a b = some m) : Agree a b := by
  intro fork x y hx hy
  have h1 := (find?_merge? h).2 (.inl hx)
  have h2 := (find?_merge? h).2 (.inr hy)
  rw [h1] at h2
  exact Option.some.inj h2

/-- Maps that agree can be merged. -/
theorem exists_merge? {a b : Choices} (h : Agree a b) : ∃ m, merge? a b = some m := by
  refine exists_chooseAll b.ascending ?_
  intro e he x hx
  exact h e.1 x e.2 hx (Table.mem_entries_iff.1 he)

end Choices

end FlowPlanner
