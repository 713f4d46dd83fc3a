/-
FlowPlanner.Proofs.Search.Exchange — a kept plan in the place of a dropped one.

When a node is pruned, the plan that followed a scheme may be dropped for another
one that costs no more in total and made the same choices above. Then everything
above the node is exchanged for what the kept plan uses. A node above from which
data also flows past the pruned node is a fork still open there, so the two plans
agree on it and nothing outside is disturbed (`Swap.eq_of_leaves`). As long as the
exchanged plans leave their data alike wherever an operator reads it, the scheme
can be followed to its end at no greater cost (`Affords.settle`, `exists_affords`).
-/
import FlowPlanner.Proofs.Search.Blueprint
import FlowPlanner.Proofs.Search.Walk

namespace FlowPlanner

variable {α : Type} [Quantity α]

/-- Some node below is an operator other than a sink. -/
def Graph.Exposed (g : Graph) (n : NodeId) : Prop := ∃ c ∈ g.outgoing n, g.Works c.target

namespace Problem

variable {p : Problem α} {st : Stage α} {σ τ κ : NodeId → Plan α} {n : NodeId}

/-! ## §1 What pruning keeps -/

/-- Of two candidates of an exposed node one makes the other useless only if both leave their data
alike. -/
def ComparesAlike (p : Problem α) (made : Array (Plan α)) : Prop :=
  ∀ q ∈ made, ∀ r ∈ made, q.node = r.node → p.graph.Exposed q.node →
    Scored.dominates (q.score p.model (p.analysis.requestsOn q.node) q.node)
      (r.score p.model (p.analysis.requestsOn q.node) q.node) = true → q.SameOutput r

/-- One plan of a node in the place of another one. -/
structure Replaces (p : Problem α) (n : NodeId) (k x : Plan α) : Prop where
  above : k.choicesAbove n = x.choicesAbove n
  noMore : NoMore (p.model.total k.cumulative) (p.model.total x.cumulative)
  output : p.graph.Exposed n → k.SameOutput x

theorem le_of_dominates {a b : Scored α} (h : Scored.dominates a b = true) :
    ∃ x y, a.total = some x ∧ b.total = some y ∧ Quantity.le x y = true := by
  unfold Scored.dominates at h
  split at h
  · rename_i x y hx hy
    rw [Bool.and_eq_true, Bool.and_eq_true] at h
    exact ⟨x, y, hx, hy, h.1.1⟩
  · simp at h

/-- For every candidate one is kept that can take its place. -/
theorem Settles.exists_replaces [Quantity.Exact α] (hg : p.graph.WellFormed) (hdue : p.Due st n)
    {kept : List (Plan α)} {s : Search α}
    (hs : p.settle (p.graph.node n) (p.channelsAt st n) st.search = (.ok kept, s))
    (halike : p.ComparesAlike s.made) {x : Plan α}
    (hx : x ∈ (p.found (p.graph.node n) (p.channelsAt st n) st.search).plans) :
    ∃ k ∈ kept, p.Replaces n k x := by
  have hsettles := settle_ok hs
  have hid := hg.node_id n hdue.lt_size
  have hrefl : ∀ a : Plan α, p.Replaces n a a :=
    fun a => ⟨rfl, NoMore.refl _, fun _ => Plan.SameOutput.refl a⟩
  rw [hsettles.kept_eq]
  unfold survivors
  split
  · refine exists_mem_prune (fun a _ => hrefl a) ?_ ?_ (Array.mem_toList_iff.2 hx)
    · intro a b c hab hbc
      exact ⟨hab.above.trans hbc.above, hab.noMore.trans hbc.noMore,
        fun h => (hab.output h).trans (hbc.output h)⟩
    · intro a ha b hb hdom
      have hfound : ∀ q ∈ (p.found (p.graph.node n) (p.channelsAt st n)
          st.search).plans.toList, q ∈ s.made ∧ q.node = n := by
        intro q hq
        have hq := Array.mem_toList_iff.1 hq
        obtain ⟨t, choices, alt, id, -, rfl, -, -⟩ := hsettles.derives hq
        exact ⟨hsettles.mem_made_of_found hq, hid⟩
      obtain ⟨hamade, hanode⟩ := hfound a ha
      obtain ⟨hbmade, hbnode⟩ := hfound b hb
      rw [hid] at hdom
      refine ⟨Scored.above_eq_of_dominates hdom, ?_, ?_⟩
      · obtain ⟨x, y, hx, hy, hle⟩ := le_of_dominates hdom
        have hx' : p.model.total a.cumulative = some x := hx
        have hy' : p.model.total b.cumulative = some y := hy
        rw [hx', hy']
        exact noMore_of_le hle
      · intro hexposed
        have hcmp := halike a hamade b hbmade (hanode.trans hbnode.symm)
        rw [hanode] at hcmp
        exact hcmp hexposed hdom
  · exact ⟨x, Array.mem_toList_iff.2 hx, hrefl x⟩

/-! ## §2 The exchange -/

/-- A node is settled: one candidate of it reads the plans of a blueprint, another one with the same
choices above was kept. -/
structure Swap (p : Problem α) (st : Stage α) (τ κ : NodeId → Plan α) (n : NodeId) (x k : Plan α)
    (kept : List (Plan α)) (s : Search α) : Prop where
  reachable : p.Reachable st
  blueprint : Blueprint st τ
  due : p.Due st n
  settles : p.settle (p.graph.node n) (p.channelsAt st n) st.search = (.ok kept, s)
  made : x ∈ s.made
  node_eq : x.node = n
  sources : ∀ ch ∈ x.inputs, ch.source = τ ch.source.node
  mem_kept : k ∈ kept
  above : k.choicesAbove n = x.choicesAbove n
  /-- The plans that the kept plan uses. -/
  uses : ∀ m, p.graph.Reaches m n → k.Uses (κ m) ∧ (κ m).node = m

open Classical in
/-- One family above a node and at it, another one elsewhere. -/
noncomputable def graft (g : Graph) (n : NodeId) (κ τ : NodeId → Plan α) (m : NodeId) : Plan α :=
  if g.Reaches m n then κ m else τ m

omit [Quantity α] in
theorem graft_of_reaches {g : Graph} {m : NodeId} (h : g.Reaches m n) :
    graft g n κ τ m = κ m := if_pos h

omit [Quantity α] in
theorem graft_of_not_reaches {g : Graph} {m : NodeId} (h : ¬ g.Reaches m n) :
    graft g n κ τ m = τ m := if_neg h

namespace Swap

variable {x k : Plan α} {kept : List (Plan α)} {s : Search α}

theorem next (h : p.Swap st τ κ n x k kept s) : p.Reachable (st.settle n kept s) :=
  h.reachable.tail (.settle h.due h.settles)

theorem kept_made (hg : p.graph.WellFormed) (h : p.Swap st τ κ n x k kept s) :
    k ∈ s.made ∧ k.node = n := by
  refine (h.next.consistent hg).kept_made n k ?_
  rw [Stage.kept_settle_self]
  exact h.mem_kept

/-- The kept plan stands where its node is. -/
theorem at_node (hp : p.Prepared) (h : p.Swap st τ κ n x k kept s) : κ n = k := by
  obtain ⟨hmade, hnode⟩ := h.kept_made hp.wellFormed
  obtain ⟨hu, hn⟩ := h.uses n (Graph.Reaches.refl _ n)
  exact (h.next.catalogue hp.wellFormed).coherent hp.wellFormed hp.forks_eq hmade _ _ hu
    (Plan.Uses.refl k) (hn.trans hnode.symm)

/-- What the candidate uses besides itself are plans of the blueprint. -/
theorem eq_of_uses (hg : p.graph.WellFormed) (h : p.Swap st τ κ n x k kept s) {r : Plan α}
    (hr : x.Uses r) (hne : r.node ≠ n) : r = τ r.node := by
  rcases hr.cases_head with rfl | ⟨ch, hch, hr⟩
  · exact absurd h.node_eq hne
  · obtain ⟨c, hc, -, hcn⟩ := (h.next.catalogue hg).exists_connection h.made hch
    rw [h.node_eq] at hc
    have hdone : ch.source.node ∈ st.done := hcn ▸ h.due.sources c hc
    rw [h.sources ch hch] at hr
    exact h.blueprint.eq_of_uses hg h.reachable hdone hr

/-- Both plans use the same plan of a node from which data also flows past their own node. -/
theorem eq_of_leaves (hp : p.Prepared) (h : p.Swap st τ κ n x k kept s) {m : NodeId}
    (hm : p.graph.Reaches m n) (hne : m ≠ n) {c : Connection} (hc : c ∈ p.graph.outgoing m)
    (hleaves : ¬ p.graph.Reaches c.target n) : κ m = τ m := by
  have hg := hp.wellFormed
  have hcat := h.next.catalogue hg
  obtain ⟨hkmade, hknode⟩ := h.kept_made hg
  have htracks : Catalogue.Tracks p n m :=
    .inr (Graph.isOpenAt_of_leaves hg.toNumbered h.due.lt_size hm hne hc hleaves)
  obtain ⟨a, ha, ham, haid⟩ :=
    hcat.exists_uses_of_tracks hg hp.forks_eq hkmade (hknode ▸ htracks)
  obtain ⟨b, hb, hbm, hbid⟩ :=
    hcat.exists_uses_of_tracks hg hp.forks_eq h.made (h.node_eq ▸ htracks)
  have hκ : κ m = a := by
    obtain ⟨hu, hn⟩ := h.uses m hm
    exact hcat.coherent hg hp.forks_eq hkmade _ _ hu ha (hn.trans ham.symm)
  have hτ : b = τ m := by
    rw [h.eq_of_uses hg hb (hbm ▸ hne), hbm]
  have hid := (find?_choices_congr h.above hne).1 haid
  rw [hbid] at hid
  rw [hκ, ← hτ]
  exact hcat.id_inj _ _ (hcat.of_uses hkmade ha) (hcat.of_uses h.made hb)
    (Option.some.inj hid).symm

/-- The exchange leaves a blueprint. -/
theorem blueprint_graft (hp : p.Prepared) (h : p.Swap st τ κ n x k kept s) :
    Blueprint (st.settle n kept s) (graft p.graph n κ τ) := by
  have hg := hp.wellFormed
  have hcons := h.next.consistent hg
  have hcat := h.next.catalogue hg
  obtain ⟨hkmade, hknode⟩ := h.kept_made hg
  have hold : ∀ m ∈ st.done, m ≠ n := fun m hm => h.due.ne_of_done hm
  have hcoh := hcat.coherent hg hp.forks_eq hkmade
  refine ⟨?_, ?_⟩
  · intro m hm
    by_cases hreach : p.graph.Reaches m n
    · rw [graft_of_reaches hreach]
      obtain ⟨hu, hn⟩ := h.uses m hreach
      have hk : k ∈ (st.settle n kept s).kept k.node := by
        rw [hknode, Stage.kept_settle_self]
        exact h.mem_kept
      have hkept := h.next.kept_of_uses hg hk hu
      rwa [hn] at hkept
    · rw [graft_of_not_reaches hreach]
      rcases List.mem_cons.1 hm with rfl | hm
      · exact absurd (Graph.Reaches.refl _ _) hreach
      · rw [Stage.kept_settle_of_ne (hold m hm)]
        exact h.blueprint.kept m hm
  · intro m hm ch hch
    by_cases hreach : p.graph.Reaches m n
    · rw [graft_of_reaches hreach] at hch
      obtain ⟨hu, hn⟩ := h.uses m hreach
      have husource := hu.trans (Plan.uses_of_mem hch)
      have hreach' := hcat.reaches_of_uses hkmade husource
      rw [hknode] at hreach'
      rw [graft_of_reaches hreach']
      obtain ⟨hu', hn'⟩ := h.uses _ hreach'
      exact hcoh _ _ husource hu' hn'.symm
    · rw [graft_of_not_reaches hreach] at hch
      have hm : m ∈ st.done := by
        rcases List.mem_cons.1 hm with rfl | hm
        · exact absurd (Graph.Reaches.refl _ _) hreach
        · exact hm
      have hsource := h.blueprint.sources m hm ch hch
      by_cases hreach' : p.graph.Reaches ch.source.node n
      · obtain ⟨c, hc, -, hcn⟩ := (h.reachable.catalogue hg).exists_connection
          (h.blueprint.made hg h.reachable hm) hch
        rw [h.blueprint.node_eq hg h.reachable hm] at hc
        have hne : ch.source.node ≠ n := by
          rw [hcn]
          exact hold _ (h.reachable.done_of_reaches hm (Graph.reaches_of_mem hc))
        rw [graft_of_reaches hreach', h.eq_of_leaves hp hreach' hne
          (Graph.mem_outgoing_iff.2 ⟨⟨m, hc⟩, hcn.symm⟩) (by rwa [hg.target_eq m c hc])]
        exact hsource
      · rw [graft_of_not_reaches hreach']
        exact hsource

/-- The exchange leaves every node alone whose data is still waited for. -/
theorem graft_of_waiting (hp : p.Prepared) (h : p.Swap st τ κ n x k kept s) {m : NodeId}
    (hm : m ∈ st.done) {c : Connection} (hc : c ∈ p.graph.outgoing m)
    (hwaits : c.target ∉ (st.settle n kept s).done) : graft p.graph n κ τ m = τ m := by
  by_cases hreach : p.graph.Reaches m n
  · rw [graft_of_reaches hreach, h.eq_of_leaves hp hreach (h.due.ne_of_done hm) hc]
    intro htarget
    exact hwaits (h.next.done_of_reaches List.mem_cons_self htarget)
  · exact graft_of_not_reaches hreach

end Swap

/-! ## §3 Costs -/

variable [Quantity.Exact α]

/-- The own costs of a family, summed over some nodes. -/
def costOver (τ : NodeId → Plan α) (nodes : List NodeId) : Cost α :=
  ∑ m ∈ nodes.toFinset, (τ m).own

theorem costOver_cons (hn : n ∉ st.done) :
    costOver τ (n :: st.done) = (τ n).own + costOver τ st.done := by
  unfold costOver
  rw [List.toFinset_cons, Finset.sum_insert (fun h => hn (List.mem_toFinset.1 h))]

/-- A family costs what one of its plans costs, and what stands elsewhere. -/
theorem Reachable.costOver_eq (hp : p.Prepared) (hst : p.Reachable st) {q : Plan α}
    (hq : q ∈ st.search.made)
    (hτ : ∀ m, p.graph.Reaches m q.node → q.Uses (τ m) ∧ (τ m).node = m) :
    costOver τ st.done =
      q.cumulative + ∑ m ∈ st.done.toFinset \ p.graph.upstream q.node, (τ m).own := by
  have hg := hp.wellFormed
  have hcons := hst.consistent hg
  have hsub : p.graph.upstream q.node ⊆ st.done.toFinset := by
    intro m hm
    exact List.mem_toFinset.2
      (hst.done_of_reaches (hcons.node_done q hq) (hg.mem_upstream.1 hm))
  rw [(hcons.derived q hq).founded.cumulative,
    (hst.catalogue hg).cumulative_eq_sum hg hp.forks_eq hq hτ]
  unfold costOver
  rw [← Finset.sum_sdiff hsub, add_comm]

/-- What is settled after the exchange costs what the kept plan costs and what stands elsewhere;
with the dropped plan it would be the same sum. -/
theorem Swap.costOver_eq {x k : Plan α} {kept : List (Plan α)} {s : Search α} (hp : p.Prepared)
    (h : p.Swap st τ κ n x k kept s) : ∃ rest,
      costOver (graft p.graph n κ τ) (n :: st.done) = k.cumulative + rest ∧
        x.own + costOver τ st.done = x.cumulative + rest := by
  have hg := hp.wellFormed
  obtain ⟨hkmade, hknode⟩ := h.kept_made hg
  have hoff : ∀ m ∈ (n :: st.done).toFinset \ p.graph.upstream n,
      m ≠ n ∧ ¬ p.graph.Reaches m n := by
    intro m hm
    have hnot := (Finset.mem_sdiff.1 hm).2
    rw [hg.mem_upstream] at hnot
    refine ⟨?_, hnot⟩
    rintro rfl
    exact hnot (Graph.Reaches.refl _ _)
  refine ⟨∑ m ∈ (n :: st.done).toFinset \ p.graph.upstream n, (τ m).own, ?_, ?_⟩
  · have hgraft : ∀ m, p.graph.Reaches m k.node →
        k.Uses (graft p.graph n κ τ m) ∧ (graft p.graph n κ τ m).node = m := by
      intro m hm
      rw [hknode] at hm
      rw [graft_of_reaches hm]
      exact h.uses m hm
    have hcost := h.next.costOver_eq hp hkmade hgraft
    rw [hknode] at hcost
    refine hcost.trans ?_
    congr 1
    refine Finset.sum_congr rfl ?_
    intro m hm
    rw [graft_of_not_reaches (hoff m hm).2]
  · -- With `x` in its place the blueprint would be this family.
    have hfamily : ∀ m, p.graph.Reaches m x.node →
        x.Uses (Function.update τ n x m) ∧ (Function.update τ n x m).node = m := by
      intro m hm
      rw [h.node_eq] at hm
      by_cases hne : m = n
      · subst hne
        rw [Function.update_self]
        exact ⟨Plan.Uses.refl x, h.node_eq⟩
      · rw [Function.update_of_ne hne]
        obtain ⟨r, hr, rfl⟩ := (h.next.catalogue hg).exists_uses hm h.made h.node_eq
        rw [← h.eq_of_uses hg hr hne]
        exact ⟨hr, rfl⟩
    have hcost := h.next.costOver_eq hp h.made hfamily
    rw [h.node_eq] at hcost
    have hbefore : costOver (Function.update τ n x) st.done = costOver τ st.done := by
      refine Finset.sum_congr rfl ?_
      intro m hm
      rw [Function.update_of_ne (h.due.ne_of_done (List.mem_toFinset.1 hm))]
    have hall : costOver (Function.update τ n x) (st.settle n kept s).done =
        x.own + costOver τ st.done := by
      show costOver (Function.update τ n x) (n :: st.done) = _
      rw [costOver_cons h.due.fresh, Function.update_self, hbefore]
    rw [hall] at hcost
    refine hcost.trans ?_
    congr 1
    refine Finset.sum_congr rfl ?_
    intro m hm
    rw [Function.update_of_ne (hoff m hm).1]

/-- If the dropped plan costs as much as the scheme does at the node, the exchange keeps the costs
within those of the scheme. -/
theorem Swap.noMore {x k : Plan α} {kept : List (Plan α)} {s : Search α} (hp : p.Prepared)
    (hkeeps : p.model.KeepsOrder) (h : p.Swap st τ κ n x k kept s)
    (hreplaced : NoMore (p.model.total k.cumulative) (p.model.total x.cumulative))
    (hown : x.own = (σ n).own)
    (hcost : NoMore (p.model.total (costOver τ st.done)) (p.model.total (costOver σ st.done))) :
    NoMore (p.model.total (costOver (graft p.graph n κ τ) (n :: st.done)))
      (p.model.total (costOver σ (n :: st.done))) := by
  obtain ⟨rest, hafter, hfollowed⟩ := h.costOver_eq hp
  have hgiven := hkeeps x.own hcost
  rw [add_comm _ x.own, hfollowed, add_comm _ x.own, hown, ← costOver_cons h.due.fresh] at hgiven
  rw [hafter]
  exact (hkeeps rest hreplaced).trans hgiven

/-! ## §4 Following a scheme at no greater cost -/

/-- A blueprint costs no more than the scheme so far, and leaves data as the scheme does wherever an
operator is still to read it. -/
structure Affords (p : Problem α) (σ : NodeId → Plan α) (st : Stage α) (τ : NodeId → Plan α) :
    Prop where
  blueprint : Blueprint st τ
  waiting : ∀ m ∈ st.done, ∀ c ∈ p.graph.outgoing m, c.target ∉ st.done →
    p.graph.Works c.target → (σ m).SameOutput (τ m)
  noMore : NoMore (p.model.total (costOver τ st.done)) (p.model.total (costOver σ st.done))

/-- Settling a node without limits continues the blueprint, if plans of exposed nodes are compared
only if they leave their data alike. -/
theorem Affords.settle (hp : p.Prepared) (hkeeps : p.model.KeepsOrder)
    (hbudget : p.config.budget = none) (hdeadline : p.config.deadlineMs = none)
    (hσ : p.Scheme σ) (hst : p.Reachable st)
    (h : p.Affords σ st τ) (hdue : p.Due st n) {kept : List (Plan α)} {s : Search α}
    (hs : p.settle (p.graph.node n) (p.channelsAt st n) st.search = (.ok kept, s))
    (halike : p.ComparesAlike s.made) : ∃ τ', p.Affords σ (st.settle n kept s) τ' := by
  have hg := hp.wellFormed
  obtain ⟨x, hx, hxfollows, hxsources⟩ :=
    h.blueprint.exists_copy hp hbudget hdeadline hst hσ hdue (by
      intro hworks c hc
      refine h.waiting c.source (hdue.sources c hc) c
        (Graph.mem_outgoing_iff.2 ⟨⟨n, hc⟩, rfl⟩) ?_ ?_
      · rw [hg.target_eq n c hc]
        exact hdue.fresh
      · rw [hg.target_eq n c hc]
        exact hworks)
  obtain ⟨k, hk, hreplaces⟩ := Settles.exists_replaces hg hdue hs halike hx
  have hst' : p.Reachable (st.settle n kept s) := hst.tail (.settle hdue hs)
  obtain ⟨hkmade, hknode⟩ := (hst'.consistent hg).kept_made n k (by
    rw [Stage.kept_settle_self]
    exact hk)
  obtain ⟨κ, hκ⟩ := (hst'.catalogue hg).exists_uses_all hkmade
  rw [hknode] at hκ
  have hswap : p.Swap st τ κ n x k kept s :=
    { reachable := hst
      blueprint := h.blueprint
      due := hdue
      settles := hs
      made := (settle_ok hs).mem_made_of_found hx
      node_eq := hxfollows.node.trans (hσ.node_eq n hdue.lt_size)
      sources := hxsources
      mem_kept := hk
      above := hreplaces.above
      uses := hκ }
  refine ⟨graft p.graph n κ τ, hswap.blueprint_graft hp, ?_,
    hswap.noMore hp hkeeps hreplaces.noMore hxfollows.own h.noMore⟩
  intro m hm c hc hwaits hworks
  rcases List.mem_cons.1 hm with rfl | hm
  · rw [graft_of_reaches (Graph.Reaches.refl _ _), hswap.at_node hp]
    have houtput := hxfollows.output (by
      rw [hσ.node_eq m hdue.lt_size]
      obtain ⟨⟨b, hb⟩, hsource⟩ := Graph.mem_outgoing_iff.1 hc
      rw [hg.target_eq b c hb] at hworks
      exact hworks.of_reaches (hsource ▸ Graph.reaches_of_mem hb))
    exact houtput.trans (hreplaces.output ⟨c, hc, hworks⟩).symm
  · rw [hswap.graft_of_waiting hp hm hc hwaits]
    exact h.waiting m hm c hc (fun hdone => hwaits (List.mem_cons_of_mem n hdone)) hworks

/-- A scheme can be followed at no greater cost as long as plans are compared only if they leave
their data alike. -/
theorem Reachable.exists_affords (hp : p.Prepared) (hkeeps : p.model.KeepsOrder)
    (hbudget : p.config.budget = none) (hdeadline : p.config.deadlineMs = none)
    (hσ : p.Scheme σ) (hst : p.Reachable st)
    (halike : p.ComparesAlike st.search.made) : ∃ τ, p.Affords σ st τ := by
  refine Reachable.induct (P := fun st => p.ComparesAlike st.search.made → ∃ τ, p.Affords σ st τ)
    ?_ ?_ hst halike
  · intro _
    exact ⟨σ, ⟨by simp, by simp⟩, by simp, NoMore.refl _⟩
  · intro st n kept s hst ih hdue hs halike
    have hsettles := settle_ok hs
    have hbefore : p.ComparesAlike st.search.made := by
      intro q hq r hr
      exact halike q (hsettles.mem_made_of_mem hq) r (hsettles.mem_made_of_mem hr)
    obtain ⟨τ, hτ⟩ := ih hbefore
    exact hτ.settle hp hkeeps hbudget hdeadline hσ hst hdue hs halike

end Problem

end FlowPlanner
