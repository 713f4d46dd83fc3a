/-
FlowPlanner.Proofs.Search.Walk — what a walk visits, and what plans cost.

A walk down from a plan visits every plan in use once. What it has met but not
finished stands below the plan it is at, so everything visited further up is
finished (`Walk.ClosedAbove`). In exact arithmetic the cumulative cost of a plan is
therefore the sum of the own costs of the plans it uses, one for each node that
reaches its own (`cumulative_eq_sum`). Where arithmetic rounds the order counts: it is
the same for plans that differ in their numbers only (`cumulativeCost_congr`).
-/
import FlowPlanner.Proofs.Cost
import FlowPlanner.Proofs.Search.Agreement
import Mathlib.Algebra.BigOperators.Group.Finset.Basic

namespace FlowPlanner

variable {α : Type}

/-! ## §1 Walks down -/

namespace Plan

theorem walkDown_eq (w : Walk α) (q : Plan α) : q.walkDown w =
    if q.id ∈ w.seen then w else walkDownAll ((w.meet q.id).visit q) q.inputs := by
  cases q
  rw [Plan.walkDown]

end Plan

theorem walkDownAll_cons (w : Walk α) (c : Channel (Plan α)) (cs : List (Channel (Plan α))) :
    walkDownAll w (c :: cs) = c.source.walkDown (walkDownAll w cs) := by
  cases c
  rw [walkDownAll, walkDownChannel]

namespace Walk

/-- A walk met each plan once, and only plans of a set. -/
structure Sound (S : Plan α → Prop) (w : Walk α) : Prop where
  seen_eq : w.seen = w.visited.map (·.id)
  nodup : w.seen.Nodup
  made : ∀ r ∈ w.visited, S r

/-- Whatever is used by a visited plan of a node before `b` was visited. -/
def ClosedAbove (w : Walk α) (b : NodeId) : Prop :=
  ∀ r ∈ w.visited, r.node < b → ∀ s, r.Uses s → s ∈ w.visited

theorem Sound.visit {S : Plan α → Prop} {w : Walk α} (h : w.Sound S) {q : Plan α} (hq : S q)
    (hseen : q.id ∉ w.seen) : ((w.meet q.id).visit q).Sound S := by
  refine ⟨congrArg (q.id :: ·) h.seen_eq, List.nodup_cons.2 ⟨hseen, h.nodup⟩, ?_⟩
  intro r hr
  rcases List.mem_cons.1 hr with rfl | hr
  · exact hq
  · exact h.made r hr

/-- Of the plans met so far only the last one is unfinished. -/
theorem ClosedAbove.visit {w : Walk α} {b : NodeId} (h : w.ClosedAbove b) {q : Plan α}
    (hb : q.node < b) : ((w.meet q.id).visit q).ClosedAbove q.node := by
  intro r hr hrq s hs
  rcases List.mem_cons.1 hr with rfl | hr
  · exact absurd hrq (Nat.lt_irrefl _)
  · exact List.mem_cons_of_mem q (h r hr (Nat.lt_trans hrq hb) s hs)

/-- From one walk to another some plans were visited, and only what they use. -/
structure Covers (w : Walk α) (targets : List (Plan α)) (w' : Walk α) : Prop where
  grows : ∀ r ∈ w.visited, r ∈ w'.visited
  reached : ∀ t ∈ targets, t ∈ w'.visited
  only : ∀ r ∈ w'.visited, r ∈ w.visited ∨ ∃ t ∈ targets, t.Uses r

theorem Covers.nil (w : Walk α) : w.Covers [] w := ⟨fun _ h => h, by simp, fun _ h => .inl h⟩

/-- Nothing is left to do for a plan that was visited. -/
theorem Covers.of_mem {w : Walk α} {q : Plan α} (hq : q ∈ w.visited) : w.Covers [q] w :=
  ⟨fun _ h => h, by simpa using hq, fun _ h => .inl h⟩

/-- One walk after the other visits the targets of both. -/
theorem Covers.append {w w₁ w₂ : Walk α} {ts us vs : List (Plan α)} (h₁ : w.Covers ts w₁)
    (h₂ : w₁.Covers us w₂) (hvs : ∀ t, t ∈ vs ↔ t ∈ ts ∨ t ∈ us) : w.Covers vs w₂ := by
  refine ⟨fun r hr => h₂.grows r (h₁.grows r hr), ?_, ?_⟩
  · intro t ht
    rcases (hvs t).1 ht with ht | ht
    · exact h₂.grows t (h₁.reached t ht)
    · exact h₂.reached t ht
  · intro r hr
    rcases h₂.only r hr with hr | ⟨t, ht, htr⟩
    · rcases h₁.only r hr with hr | ⟨t, ht, htr⟩
      · exact .inl hr
      · exact .inr ⟨t, (hvs t).2 (.inl ht), htr⟩
    · exact .inr ⟨t, (hvs t).2 (.inr ht), htr⟩

/-- From one walk to another some plans were visited, and what they use; of the plans met only
those from `b` on may be unfinished. -/
structure Visits (S : Plan α → Prop) (b : NodeId) (w : Walk α) (targets : List (Plan α))
    (w' : Walk α) : Prop extends Covers w targets w' where
  sound : w'.Sound S
  closed : w'.ClosedAbove b

theorem visits_all {S : Plan α → Prop} {b : NodeId} : ∀ {cs : List (Channel (Plan α))},
    (∀ c ∈ cs, ∀ w : Walk α, w.Sound S → w.ClosedAbove b →
      Visits S b w [c.source] (c.source.walkDown w)) →
      ∀ {w : Walk α}, w.Sound S → w.ClosedAbove b →
        Visits S b w (cs.map (·.source)) (walkDownAll w cs)
  | [], _, w, hw, hclosed => by
    rw [walkDownAll]
    exact ⟨.nil w, hw, hclosed⟩
  | c :: cs, hcs, w, hw, hclosed => by
    have hrest := visits_all (fun d hd => hcs d (List.mem_cons_of_mem c hd)) hw hclosed
    have hlast := hcs c List.mem_cons_self _ hrest.sound hrest.closed
    rw [walkDownAll_cons]
    exact ⟨hrest.toCovers.append hlast.toCovers (by simp [or_comm]), hlast.sound, hlast.closed⟩

end Walk

namespace Problem.Catalogue

variable {p : Problem α} {S : Plan α → Prop}

/-- A walk down from a plan visits the plan and what it uses. -/
theorem walkDown_visits (h : p.Catalogue S) (hg : p.graph.WellFormed) {q : Plan α} (hq : S q)
    {b : NodeId} (hb : q.node < b) {w : Walk α} (hw : w.Sound S) (hclosed : w.ClosedAbove b) :
    Walk.Visits S b w [q] (q.walkDown w) := by
  induction hn : q.node using Nat.strongRecOn generalizing q b w with
  | _ n ih =>
    rw [Plan.walkDown_eq]
    split
    · rename_i hseen
      rw [hw.seen_eq] at hseen
      obtain ⟨r, hr, hid⟩ := List.mem_map.1 hseen
      obtain rfl := h.id_inj r q (hw.made r hr) hq hid
      exact ⟨.of_mem hr, hw, hclosed⟩
    · rename_i hseen
      have hlt : ∀ ch ∈ q.inputs, ∀ s, ch.source.Uses s → s.node < q.node :=
        fun ch hch s hs => h.lt_of_uses_source hg hq hch hs
      have hinputs := @Walk.visits_all α S q.node q.inputs (by
        intro ch hch w' hw' hclosed'
        have hch' := hlt ch hch _ (Plan.Uses.refl _)
        exact ih ch.source.node (hn ▸ hch') (h.sources q hq ch hch) hch' hw' hclosed' rfl) _
          (hw.visit hq hseen) (hclosed.visit hb)
      have hqv := hinputs.grows q List.mem_cons_self
      have huses : ∀ ch ∈ q.inputs, ∀ s, ch.source.Uses s →
          s ∈ (walkDownAll ((w.meet q.id).visit q) q.inputs).visited :=
        fun ch hch s hs => hinputs.closed ch.source
          (hinputs.reached _ (List.mem_map_of_mem hch)) (hlt ch hch _ (Plan.Uses.refl _)) s hs
      refine ⟨⟨fun r hr => hinputs.grows r (List.mem_cons_of_mem q hr), ?_, ?_⟩,
        hinputs.sound, ?_⟩
      · intro t ht
        rw [List.mem_singleton.1 ht]
        exact hqv
      · intro r hr
        rcases hinputs.only r hr with hr | ⟨t, ht, htr⟩
        · rcases List.mem_cons.1 hr with rfl | hr
          · exact .inr ⟨_, List.mem_singleton.2 rfl, Plan.Uses.refl _⟩
          · exact .inl hr
        · obtain ⟨ch, hch, rfl⟩ := List.mem_map.1 ht
          exact .inr ⟨q, List.mem_singleton.2 rfl, (Plan.uses_of_mem hch).trans htr⟩
      · intro r hr hrb s hs
        rcases hinputs.only r hr with hr | ⟨t, ht, htr⟩
        · rcases List.mem_cons.1 hr with rfl | hr
          · rcases hs.cases_head with rfl | ⟨ch, hch, hs⟩
            · exact hqv
            · exact huses ch hch s hs
          · exact hinputs.grows s (List.mem_cons_of_mem q (hclosed r hr hrb s hs))
        · obtain ⟨ch, hch, rfl⟩ := List.mem_map.1 ht
          exact huses ch hch s (htr.trans hs)

/-- A walk down from the sources of some channels visits, once each, the plans that they use. -/
theorem walkDownAll_spec (h : p.Catalogue S) (hg : p.graph.WellFormed)
    {cs : List (Channel (Plan α))} (hcs : ∀ ch ∈ cs, S ch.source) :
    ((walkDownAll {} cs).visited.map (·.id)).Nodup ∧
      ∀ r, r ∈ (walkDownAll {} cs).visited ↔ ∃ ch ∈ cs, ch.source.Uses r := by
  have hlt : ∀ ch ∈ cs, ch.source.node < p.graph.size := fun ch hch => h.node_lt _ (hcs ch hch)
  have hv := @Walk.visits_all α S p.graph.size cs
    (fun ch hch _ hw hclosed => h.walkDown_visits hg (hcs ch hch) (hlt ch hch) hw hclosed)
    {} ⟨rfl, List.nodup_nil, by simp⟩ (fun r hr => by simp at hr)
  refine ⟨hv.sound.seen_eq ▸ hv.sound.nodup, fun r => ⟨?_, ?_⟩⟩
  · intro hr
    rcases hv.only r hr with hr | ⟨t, ht, htr⟩
    · simp at hr
    · obtain ⟨ch, hch, rfl⟩ := List.mem_map.1 ht
      exact ⟨ch, hch, htr⟩
  · rintro ⟨ch, hch, hr⟩
    exact hv.closed ch.source (hv.reached _ (List.mem_map_of_mem hch)) (hlt ch hch) r hr

end Problem.Catalogue

/-! ## §2 Walks over copies -/

/-- Pairs of plans in which what a pair reads is paired again, and numbers tell plans apart on one
side as on the other. -/
structure Renumbers (R : Plan α → Plan α → Prop) : Prop where
  sources : ∀ x y, R x y → List.Forall₂ (fun c d => R c.source d.source) x.inputs y.inputs
  ids : ∀ x y x' y', R x y → R x' y' → (x.id = x'.id ↔ y.id = y'.id)
  below : ∀ x y, R x y → ∀ c ∈ x.inputs, c.source.node < x.node

namespace Walk

/-- Two walks visited the sides of the same pairs, in the same order. -/
structure Parallel (R : Plan α → Plan α → Prop) (w w' : Walk α) : Prop where
  seen : w.seen = w.visited.map (·.id)
  seen' : w'.seen = w'.visited.map (·.id)
  visited : List.Forall₂ R w.visited w'.visited

variable {R : Plan α → Plan α → Prop} {w w' : Walk α}

/-- One side of a pair was met exactly when the other side was. -/
theorem Parallel.mem_seen_iff (h : Parallel R w w') (hR : Renumbers R) {x y : Plan α}
    (hxy : R x y) : x.id ∈ w.seen ↔ y.id ∈ w'.seen := by
  rw [h.seen, h.seen']
  have hvisited := h.visited
  generalize w.visited = vs, w'.visited = vs' at hvisited
  induction hvisited with
  | nil => simp
  | @cons v v' vs vs' hv _ ih =>
    rw [List.map_cons, List.map_cons, List.mem_cons, List.mem_cons]
    exact or_congr (hR.ids x y v v' hxy hv) ih

theorem Parallel.all {cs ds : List (Channel (Plan α))}
    (hcs : List.Forall₂ (fun c d => ∀ w w' : Walk α, Parallel R w w' →
      Parallel R (c.source.walkDown w) (d.source.walkDown w')) cs ds) (h : Parallel R w w') :
    Parallel R (walkDownAll w cs) (walkDownAll w' ds) := by
  induction hcs with
  | nil => exact h
  | cons hc _ ih =>
    rw [walkDownAll_cons, walkDownAll_cons]
    exact hc _ _ ih

/-- Walks down from the sides of a pair stay in step. -/
theorem Parallel.walkDown (hR : Renumbers R) {x y : Plan α} (hxy : R x y)
    (h : Parallel R w w') : Parallel R (x.walkDown w) (y.walkDown w') := by
  induction hn : x.node using Nat.strongRecOn generalizing x y w w' with
  | _ n ih =>
    have hseen := h.mem_seen_iff hR hxy
    rw [Plan.walkDown_eq, Plan.walkDown_eq]
    by_cases hx : x.id ∈ w.seen
    · rw [if_pos hx, if_pos (hseen.1 hx)]
      exact h
    · rw [if_neg hx, if_neg fun hy => hx (hseen.2 hy)]
      refine Parallel.all ?_ ⟨congrArg (x.id :: ·) h.seen, congrArg (y.id :: ·) h.seen',
        .cons hxy h.visited⟩
      refine (List.forall₂_and_left _ _).2 ⟨hR.below x y hxy, hR.sources x y hxy⟩ |>.imp ?_
      rintro c d ⟨hlt, hcd⟩ w w' h
      exact ih c.source.node (hn ▸ hlt) hcd h rfl

end Walk

/-- Plans whose inputs are paired, and pairs cost the same, cost the same on top of what they cost
themselves: costs are added up in the same order. -/
theorem cumulativeCost_congr [Quantity α] {R : Plan α → Plan α → Prop} (hR : Renumbers R)
    (hown : ∀ x y, R x y → x.own = y.own) {cs ds : List (Channel (Plan α))}
    (hcs : List.Forall₂ (fun c d => R c.source d.source) cs ds) (own : Cost α) :
    Plan.cumulativeCost own cs = Plan.cumulativeCost own ds := by
  have hwalk : Walk.Parallel R (walkDownAll {} cs) (walkDownAll {} ds) := by
    refine Walk.Parallel.all (hcs.imp ?_) ⟨rfl, rfl, .nil⟩
    intro c d hcd w w' h
    exact h.walkDown hR hcd
  have hvisited := hwalk.visited
  unfold Plan.cumulativeCost
  generalize (walkDownAll {} cs).visited = vs, (walkDownAll {} ds).visited = vs' at hvisited
  induction hvisited with
  | nil => rfl
  | cons hv _ ih => rw [List.foldr_cons, List.foldr_cons, ih, hown _ _ hv]

/-! ## §3 The plans beneath a plan -/

/-- The plans whose own costs a plan is charged besides its own, the one met last first. -/
def Plan.beneath (q : Plan α) : List (Plan α) := (walkDownAll {} q.inputs).visited

namespace Problem.Catalogue

variable {p : Problem α} {S : Plan α → Prop} {q : Plan α}

theorem nodup_ids_beneath (h : p.Catalogue S) (hg : p.graph.WellFormed) (hq : S q) :
    (q.beneath.map (·.id)).Nodup := (h.walkDownAll_spec hg (h.sources q hq)).1

theorem mem_beneath_iff (h : p.Catalogue S) (hg : p.graph.WellFormed) (hq : S q) {r : Plan α} :
    r ∈ q.beneath ↔ ∃ ch ∈ q.inputs, ch.source.Uses r :=
  (h.walkDownAll_spec hg (h.sources q hq)).2 r

theorem uses_of_mem_beneath (h : p.Catalogue S) (hg : p.graph.WellFormed) (hq : S q) {r : Plan α}
    (hr : r ∈ q.beneath) : q.Uses r := by
  obtain ⟨ch, hch, hr⟩ := (h.mem_beneath_iff hg hq).1 hr
  exact (Plan.uses_of_mem hch).trans hr

/-- Beneath a plan there is one plan for each node above the plan's own. -/
theorem nodes_beneath (h : p.Catalogue S) (hg : p.graph.WellFormed)
    (hforks : p.analysis.forks = p.graph.forkStates) (hq : S q) :
    (q.beneath.map (·.node)).Nodup ∧
      ∀ n, n ∈ q.beneath.map (·.node) ↔ p.graph.Reaches n q.node ∧ n ≠ q.node := by
  constructor
  · refine (List.Nodup.of_map (·.id) (h.nodup_ids_beneath hg hq)).map_on ?_
    intro r hr s hs hrs
    exact h.coherent hg hforks hq r s (h.uses_of_mem_beneath hg hq hr)
      (h.uses_of_mem_beneath hg hq hs) hrs
  · intro n
    rw [List.mem_map]
    constructor
    · rintro ⟨r, hr, rfl⟩
      refine ⟨h.reaches_of_uses hq (h.uses_of_mem_beneath hg hq hr), ?_⟩
      obtain ⟨ch, hch, hu⟩ := (h.mem_beneath_iff hg hq).1 hr
      exact Nat.ne_of_lt (h.lt_of_uses_source hg hq hch hu)
    · rintro ⟨hn, hne⟩
      obtain ⟨r, hr, rfl⟩ := h.exists_uses hn hq rfl
      rcases hr.cases_head with rfl | ⟨ch, hch, hu⟩
      · exact absurd rfl hne
      · exact ⟨r, (h.mem_beneath_iff hg hq).2 ⟨ch, hch, hu⟩, rfl⟩

end Problem.Catalogue

/-! ## §4 The cost of a plan -/

open Classical in
/-- The nodes that reach a node, the node among them. -/
noncomputable def Graph.upstream (g : Graph) (n : NodeId) : Finset NodeId :=
  (Finset.range (n + 1)).filter fun m => g.Reaches m n

theorem Graph.Numbered.mem_upstream {g : Graph} (hg : g.Numbered) {m n : NodeId} :
    m ∈ g.upstream n ↔ g.Reaches m n := by
  unfold Graph.upstream
  classical
  rw [Finset.mem_filter, Finset.mem_range, Nat.lt_succ_iff]
  exact ⟨fun h => h.2, fun h => ⟨hg.le_of_reaches h, h⟩⟩

variable [Quantity α] [Quantity.Exact α]

theorem foldr_add_own (own : Cost α) : ∀ rs : List (Plan α),
    rs.foldr (fun r total => total + r.own) own = own + (rs.map (·.own)).sum
  | [] => (add_zero own).symm
  | r :: rs => by
    rw [List.foldr_cons, foldr_add_own own rs, List.map_cons, List.sum_cons, add_assoc,
      add_comm _ r.own]

/-- The cumulative cost of a plan is the sum of the own costs of all plans that it uses. -/
theorem Problem.Catalogue.cumulative_eq_sum {p : Problem α} {S : Plan α → Prop}
    (h : p.Catalogue S) (hg : p.graph.WellFormed) (hforks : p.analysis.forks = p.graph.forkStates)
    {q : Plan α} (hq : S q) {σ : NodeId → Plan α}
    (hσ : ∀ n, p.graph.Reaches n q.node → q.Uses (σ n) ∧ (σ n).node = n) :
    Plan.cumulativeCost q.own q.inputs = ∑ n ∈ p.graph.upstream q.node, (σ n).own := by
  have hat : ∀ r, q.Uses r → σ r.node = r := by
    intro r hr
    obtain ⟨hu, hn⟩ := hσ r.node (h.reaches_of_uses hq hr)
    exact h.coherent hg hforks hq _ r hu hr hn
  obtain ⟨hnodup, hmem⟩ := h.nodes_beneath hg hforks hq
  have hfresh : q.node ∉ (q.beneath.map (·.node)).toFinset := by
    rw [List.mem_toFinset, hmem]
    exact fun hin => hin.2 rfl
  have hup : p.graph.upstream q.node = insert q.node (q.beneath.map (·.node)).toFinset := by
    ext n
    rw [hg.mem_upstream, Finset.mem_insert, List.mem_toFinset, hmem]
    constructor
    · intro hn
      by_cases hne : n = q.node
      · exact .inl hne
      · exact .inr ⟨hn, hne⟩
    · rintro (rfl | ⟨hn, -⟩)
      · exact Graph.Reaches.refl _ _
      · exact hn
  rw [show Plan.cumulativeCost q.own q.inputs =
    q.beneath.foldr (fun r total => total + r.own) q.own from rfl, foldr_add_own, hup,
    Finset.sum_insert hfresh, List.sum_toFinset _ hnodup, List.map_map,
    hat q (Plan.Uses.refl q)]
  congr 2
  refine List.map_congr_left ?_
  intro r hr
  exact congrArg Plan.own (hat r (h.uses_of_mem_beneath hg hq hr)).symm

end FlowPlanner
