/-
FlowPlanner.Proofs.Search.Inventory — what a plan needs, listed once and paid for once.

A plan is listed with everything that it uses by a walk up (`Plan.topological`), and
is charged for what it uses by a walk down (`Plan.cumulativeCost`). The walk up puts
a plan down only after its inputs, so what was met but not put down are the plans
whose inputs are still being visited (`Walk.Rising`); they stand below the plan that
the walk is at. Both walks come to the same plans, one for each node above, and so the
cumulative cost of a plan is that of the plans listed (`made_plans_charge_once`).
-/
import FlowPlanner.Proofs.Search.Walk

namespace FlowPlanner

variable {α : Type}

/-! ## §1 Walks up -/

namespace Plan

theorem walkUp_eq (w : Walk α) (q : Plan α) : q.walkUp w =
    if q.id ∈ w.seen then w else (walkUpAll (w.meet q.id) q.inputs).visit q := by
  cases q
  rw [Plan.walkUp]

end Plan

theorem walkUpAll_cons (w : Walk α) (c : Channel (Plan α)) (cs : List (Channel (Plan α))) :
    walkUpAll w (c :: cs) = walkUpAll (c.source.walkUp w) cs := by
  cases c
  rw [walkUpAll, walkUpChannel]

namespace Walk

/-- A walk put plans of a set down, each once and after all that it uses; met but not put down are
the pending ones. -/
structure Rising (S : Plan α → Prop) (pending : List (Plan α)) (w : Walk α) : Prop where
  nodup : (w.visited.map (·.id)).Nodup
  made : ∀ r ∈ w.visited, S r
  closed : ∀ r ∈ w.visited, ∀ s, r.Uses s → s ∈ w.visited
  /-- What was put down before a plan stands after it, for the latest stands first. -/
  ordered : ∀ r rest, r :: rest <:+ w.visited → ∀ ch ∈ r.inputs, ch.source ∈ rest
  seen_iff : ∀ x, x ∈ w.seen ↔ ∃ r, (r ∈ w.visited ∨ r ∈ pending) ∧ r.id = x

variable {S : Plan α → Prop} {pending : List (Plan α)} {w : Walk α}

theorem rising_start (S : Plan α → Prop) : ({} : Walk α).Rising S [] :=
  ⟨List.nodup_nil, by simp, by simp, by simp, by simp⟩

theorem Rising.meet (h : w.Rising S pending) (q : Plan α) :
    (w.meet q.id).Rising S (q :: pending) := by
  refine ⟨h.nodup, h.made, h.closed, h.ordered, ?_⟩
  intro x
  rw [show (w.meet q.id).seen = q.id :: w.seen from rfl, List.mem_cons, h.seen_iff]
  constructor
  · rintro (rfl | ⟨r, hr | hr, hid⟩)
    · exact ⟨q, .inr List.mem_cons_self, rfl⟩
    · exact ⟨r, .inl hr, hid⟩
    · exact ⟨r, .inr (List.mem_cons_of_mem q hr), hid⟩
  · rintro ⟨r, hr | hr, hid⟩
    · exact .inr ⟨r, .inl hr, hid⟩
    · rcases List.mem_cons.1 hr with rfl | hr
      · exact .inl hid.symm
      · exact .inr ⟨r, .inr hr, hid⟩

/-- The plan met last is put down as soon as all that its inputs use is there. -/
theorem Rising.visit {q : Plan α} (h : w.Rising S (q :: pending)) (hq : S q)
    (hfresh : q.id ∉ w.visited.map (·.id))
    (hinputs : ∀ ch ∈ q.inputs, ch.source ∈ w.visited) : (w.visit q).Rising S pending := by
  refine ⟨List.nodup_cons.2 ⟨hfresh, h.nodup⟩, ?_, ?_, ?_, ?_⟩
  · intro r hr
    rcases List.mem_cons.1 hr with rfl | hr
    · exact hq
    · exact h.made r hr
  · intro r hr s hs
    rcases List.mem_cons.1 hr with rfl | hr
    · rcases hs.cases_head with rfl | ⟨ch, hch, hs⟩
      · exact List.mem_cons_self
      · exact List.mem_cons_of_mem _ (h.closed _ (hinputs ch hch) s hs)
    · exact List.mem_cons_of_mem _ (h.closed r hr s hs)
  · intro r rest hsuffix ch hch
    rcases List.suffix_cons_iff.1 hsuffix with heq | hsuffix
    · obtain ⟨rfl, rfl⟩ := List.cons.inj heq
      exact hinputs ch hch
    · exact h.ordered r rest hsuffix ch hch
  · intro x
    rw [show (w.visit q).seen = w.seen from rfl, h.seen_iff,
      show (w.visit q).visited = q :: w.visited from rfl]
    simp only [List.mem_cons]
    constructor
    · rintro ⟨r, hr | rfl | hr, hid⟩
      · exact ⟨r, .inl (.inr hr), hid⟩
      · exact ⟨r, .inl (.inl rfl), hid⟩
      · exact ⟨r, .inr hr, hid⟩
    · rintro ⟨r, (rfl | hr) | hr, hid⟩
      · exact ⟨r, .inr (.inl rfl), hid⟩
      · exact ⟨r, .inl hr, hid⟩
      · exact ⟨r, .inr (.inr hr), hid⟩

theorem rising_all : ∀ {cs : List (Channel (Plan α))},
    (∀ c ∈ cs, ∀ w : Walk α, w.Rising S pending →
      (c.source.walkUp w).Rising S pending ∧ w.Covers [c.source] (c.source.walkUp w)) →
      ∀ {w : Walk α}, w.Rising S pending →
        (walkUpAll w cs).Rising S pending ∧ w.Covers (cs.map (·.source)) (walkUpAll w cs)
  | [], _, w, hw => by
    rw [walkUpAll]
    exact ⟨hw, .nil w⟩
  | c :: cs, hcs, w, hw => by
    obtain ⟨hfirst, hcovers⟩ := hcs c List.mem_cons_self w hw
    obtain ⟨hrest, hcovers'⟩ := rising_all (fun d hd => hcs d (List.mem_cons_of_mem c hd)) hfirst
    rw [walkUpAll_cons]
    exact ⟨hrest, hcovers.append hcovers' (by simp)⟩

end Walk

namespace Problem.Catalogue

variable {p : Problem α} {S : Plan α → Prop}

/-- A walk up to a plan that stands above all pending ones visits it and what it uses. -/
theorem walkUp_rising (h : p.Catalogue S) (hg : p.graph.WellFormed) {q : Plan α} (hq : S q)
    {pending : List (Plan α)} (hpending : ∀ r ∈ pending, S r ∧ q.node < r.node) {w : Walk α}
    (hw : w.Rising S pending) : (q.walkUp w).Rising S pending ∧ w.Covers [q] (q.walkUp w) := by
  induction hn : q.node using Nat.strongRecOn generalizing q pending w with
  | _ n ih =>
    rw [Plan.walkUp_eq]
    split
    · rename_i hseen
      obtain ⟨r, hr | hr, hid⟩ := (hw.seen_iff q.id).1 hseen
      · obtain rfl := h.id_inj r q (hw.made r hr) hq hid
        exact ⟨hw, .of_mem hr⟩
      · obtain ⟨hSr, hlt⟩ := hpending r hr
        obtain rfl := h.id_inj r q hSr hq hid
        exact absurd hlt (Nat.lt_irrefl _)
    · rename_i hseen
      have hlt : ∀ ch ∈ q.inputs, ch.source.node < q.node :=
        fun ch hch => h.lt_of_uses_source hg hq hch (Plan.Uses.refl _)
      have hinput : ∀ ch ∈ q.inputs, ∀ w' : Walk α, w'.Rising S (q :: pending) →
          (ch.source.walkUp w').Rising S (q :: pending) ∧
            w'.Covers [ch.source] (ch.source.walkUp w') := by
        intro ch hch w' hw'
        refine ih ch.source.node (hn ▸ hlt ch hch) (h.sources q hq ch hch) ?_ hw' rfl
        intro r hr
        rcases List.mem_cons.1 hr with rfl | hr
        · exact ⟨hq, hlt ch hch⟩
        · exact ⟨(hpending r hr).1, Nat.lt_trans (hlt ch hch) (hpending r hr).2⟩
      obtain ⟨hrising, hcovers⟩ := Walk.rising_all hinput (hw.meet q)
      have hold : ∀ r ∈ w.visited, r.id ≠ q.id :=
        fun r hr hid => hseen ((hw.seen_iff q.id).2 ⟨r, .inl hr, hid⟩)
      have hfresh : q.id ∉ (walkUpAll (w.meet q.id) q.inputs).visited.map (·.id) := by
        intro hmem
        obtain ⟨r, hr, hid⟩ := List.mem_map.1 hmem
        rcases hcovers.only r hr with hr | ⟨t, ht, htr⟩
        · exact hold r hr hid
        · -- No plan is used by its own inputs.
          obtain ⟨ch, hch, rfl⟩ := List.mem_map.1 ht
          obtain rfl := h.id_inj r q (h.of_uses (h.sources q hq ch hch) htr) hq hid
          exact absurd (h.lt_of_uses_source hg hq hch htr) (Nat.lt_irrefl _)
      refine ⟨hrising.visit hq hfresh
        (fun ch hch => hcovers.reached _ (List.mem_map_of_mem hch)), ?_, ?_, ?_⟩
      · exact fun r hr => List.mem_cons_of_mem q (hcovers.grows r hr)
      · intro t ht
        rw [List.mem_singleton.1 ht]
        exact List.mem_cons_self
      · intro r hr
        rcases List.mem_cons.1 hr with rfl | hr
        · exact .inr ⟨_, List.mem_singleton.2 rfl, Plan.Uses.refl _⟩
        · rcases hcovers.only r hr with hr | ⟨t, ht, htr⟩
          · exact .inl hr
          · obtain ⟨ch, hch, rfl⟩ := List.mem_map.1 ht
            exact .inr ⟨q, List.mem_singleton.2 rfl, (Plan.uses_of_mem hch).trans htr⟩

/-- A plan's listing holds the plan and what it uses, each once. -/
theorem topological_spec (h : p.Catalogue S) (hg : p.graph.WellFormed) {q : Plan α} (hq : S q) :
    (q.topological.map (·.id)).Nodup ∧ ∀ r, r ∈ q.topological ↔ q.Uses r := by
  have hnone : ∀ r ∈ ([] : List (Plan α)), S r ∧ q.node < r.node := by simp
  obtain ⟨hrising, hcovers⟩ := h.walkUp_rising hg hq hnone (Walk.rising_start S)
  unfold Plan.topological
  constructor
  · rw [List.map_reverse, List.nodup_reverse]
    exact hrising.nodup
  · intro r
    rw [List.mem_reverse]
    constructor
    · intro hr
      rcases hcovers.only r hr with hr | ⟨t, ht, htr⟩
      · simp at hr
      · rwa [List.mem_singleton.1 ht] at htr
    · exact hrising.closed q (hcovers.reached q (List.mem_singleton.2 rfl)) r

/-- In a plan's listing every plan stands after those that it reads. -/
theorem topological_ordered (h : p.Catalogue S) (hg : p.graph.WellFormed) {q : Plan α} (hq : S q)
    {before after : List (Plan α)} {r : Plan α} (hsplit : q.topological = before ++ r :: after) :
    ∀ ch ∈ r.inputs, ch.source ∈ before := by
  have hnone : ∀ r ∈ ([] : List (Plan α)), S r ∧ q.node < r.node := by simp
  obtain ⟨hrising, -⟩ := h.walkUp_rising hg hq hnone (Walk.rising_start S)
  have hvisited : (q.walkUp {}).visited = after.reverse ++ r :: before.reverse := by
    rw [← List.reverse_reverse (q.walkUp {}).visited,
      show (q.walkUp {}).visited.reverse = q.topological from rfl, hsplit]
    simp
  intro ch hch
  exact List.mem_reverse.1
    (hrising.ordered r before.reverse ⟨after.reverse, hvisited.symm⟩ ch hch)

/-- The two walks come to the same plans. -/
theorem topological_perm (h : p.Catalogue S) (hg : p.graph.WellFormed) {q : Plan α} (hq : S q) :
    q.topological.Perm (q :: q.beneath) := by
  obtain ⟨hnodup, hmem⟩ := h.topological_spec hg hq
  have hfresh : q ∉ q.beneath := by
    intro hin
    obtain ⟨ch, hch, hu⟩ := (h.mem_beneath_iff hg hq).1 hin
    exact Nat.lt_irrefl _ (h.lt_of_uses_source hg hq hch hu)
  refine (List.perm_ext_iff_of_nodup hnodup.of_map
    (List.nodup_cons.2 ⟨hfresh, (h.nodup_ids_beneath hg hq).of_map⟩)).2 ?_
  intro r
  rw [hmem, List.mem_cons, h.mem_beneath_iff hg hq]
  constructor
  · exact Plan.Uses.cases_head
  · rintro (rfl | ⟨ch, hch, hu⟩)
    · exact Plan.Uses.refl r
    · exact (Plan.uses_of_mem hch).trans hu

end Problem.Catalogue

/-! ## §2 Charges -/

variable [Quantity α]

theorem Quantity.add?_eq_none_iff {a b : Option α} : add? a b = none ↔ a = none ∨ b = none := by
  cases a <;> cases b <;> simp

/-- Along a dimension in which costs add, a sum of own costs is unknown if one of them is. -/
theorem foldr_add_own_eq_none_iff {dim : Cost α → Option α}
    (hdim : ∀ a b, dim (a + b) = Quantity.add? (dim a) (dim b)) (own : Cost α)
    (rs : List (Plan α)) : dim (rs.foldr (fun r total => total + r.own) own) = none ↔
      dim own = none ∨ ∃ r ∈ rs, dim r.own = none := by
  induction rs with
  | nil => simp
  | cons r rs ih =>
    rw [List.foldr_cons, hdim, Quantity.add?_eq_none_iff, ih]
    simp only [List.mem_cons, exists_eq_or_imp]
    exact or_assoc.trans (or_congr_right or_comm)

/-- A plan is charged its own costs and those of one plan for each node above its own, and these
are the plans that it lists. -/
structure Plan.ChargesOnce (g : Graph) (q : Plan α) : Prop where
  cumulative_eq : q.cumulative = q.beneath.foldr (fun r total => total + r.own) q.own
  nodup : (q.beneath.map (·.node)).Nodup
  mem_iff : ∀ n, n ∈ q.beneath.map (·.node) ↔ g.Reaches n q.node ∧ n ≠ q.node
  uses : ∀ r ∈ q.beneath, q.Uses r
  topological : q.topological.Perm (q :: q.beneath)
  unknown_iff : ∀ dim ∈ [Cost.network, Cost.disk, Cost.cpu],
    dim q.cumulative = none ↔ ∃ r ∈ q.topological, dim r.own = none

namespace Problem

variable {p : Problem α}

theorem Reachable.chargesOnce (hp : p.Prepared) {st : Stage α} (hst : p.Reachable st) {q : Plan α}
    (hq : q ∈ st.search.made) : q.ChargesOnce p.graph := by
  have hg := hp.wellFormed
  have hcat := hst.catalogue hg
  obtain ⟨hnodup, hmem⟩ := hcat.nodes_beneath hg hp.forks_eq hq
  have hperm := hcat.topological_perm hg hq
  have hcumulative : q.cumulative = q.beneath.foldr (fun r total => total + r.own) q.own :=
    (((hst.consistent hg).derived q hq).founded).cumulative
  refine ⟨hcumulative, hnodup, hmem, fun r => hcat.uses_of_mem_beneath hg hq, hperm, ?_⟩
  have hunknown : ∀ dim : Cost α → Option α,
      (∀ a b, dim (a + b) = Quantity.add? (dim a) (dim b)) →
        (dim q.cumulative = none ↔ ∃ r ∈ q.topological, dim r.own = none) := by
    intro dim hdim
    rw [hcumulative, foldr_add_own_eq_none_iff hdim]
    simp only [hperm.mem_iff, List.mem_cons, exists_eq_or_imp]
  simpa using ⟨hunknown _ Cost.network_add, hunknown _ Cost.disk_add, hunknown _ Cost.cpu_add⟩

/-- In exact arithmetic a plan costs what the plans that it lists cost. -/
theorem Reachable.cumulative_eq_sum_topological [Quantity.Exact α] (hp : p.Prepared)
    {st : Stage α} (hst : p.Reachable st) {q : Plan α} (hq : q ∈ st.search.made) :
    q.cumulative = (q.topological.map (·.own)).sum := by
  have hcharges := hst.chargesOnce hp hq
  rw [hcharges.cumulative_eq, foldr_add_own, (hcharges.topological.map (·.own)).sum_eq]
  rfl

end Problem

/-- However a search ends, every plan that it made is charged for what it uses once: the traversal
adds the own costs of one plan for each node above. A dimension of the cumulative cost is unknown
just if it is unknown for one of the plans listed, and in exact arithmetic the cumulative cost is
the sum of theirs. -/
theorem made_plans_charge_once {o : Optimizer α} {job : Job} {p : Problem α}
    (h : o.prepare job = .ok p) (clock : Nat → Nat) :
    ∀ q ∈ ({ p with clock }.candidates p.graph.root {}).2.made,
      q.ChargesOnce p.graph ∧
        ∀ [Quantity.Exact α], q.cumulative = (q.topological.map (·.own)).sum := by
  intro q hq
  obtain ⟨hp, st, hst, hmade⟩ := o.exists_stage h clock
  rw [hmade] at hq
  exact ⟨hst.chargesOnce hp hq, hst.cumulative_eq_sum_topological hp hq⟩

/-- A grouping that a cross reads on both sides, on one of them through a map. -/
def sharedGroups : Job where
  operators :=
    [{ id := 1, name := "in"
       kind := .source { statistics := { records := some 4, bytes := some 64 } } },
     { id := 2, name := "agg", kind := .reduce, inputs := [[1]], keys := [[0]]
       sizes := { keyCardinality := some 2 } },
     { id := 3, name := "left", kind := .map, inputs := [[2]] },
     { id := 4, name := "pairs", kind := .cross, inputs := [[3], [2]] },
     { id := 5, name := "out", kind := .sink, inputs := [[4]] }]

/-- The 64 bytes that reach the grouping are charged once, beside the 256 of the cross. -/
theorem made_plans_charge_once_sharedGroups : ∃ p,
    Optimizer.ofUnitWeights.prepare sharedGroups = .ok p ∧
      ∃ q ∈ (p.candidates p.graph.root {}).2.made,
        q.topological.length = 5 ∧ q.cumulative.network = some 320 ∧
          q.ChargesOnce p.graph ∧ q.cumulative = (q.topological.map (·.own)).sum := by
  obtain ⟨p, hprepare, hcheck⟩ := exists_ok_of_any
    (r := Optimizer.ofUnitWeights.prepare sharedGroups)
    (f := fun p => (p.candidates p.graph.root {}).2.made.toList.any fun q =>
      q.topological.length == 5 && q.cumulative.network == some 320) (by decide +kernel)
  simp only [List.any_eq_true, Bool.and_eq_true, beq_iff_eq, Array.mem_toList_iff] at hcheck
  obtain ⟨q, hq, hlength, hnetwork⟩ := hcheck
  obtain ⟨hcharges, hsum⟩ := made_plans_charge_once hprepare p.clock q hq
  exact ⟨p, hprepare, q, hq, hlength, hnetwork, hcharges, hsum⟩

end FlowPlanner
