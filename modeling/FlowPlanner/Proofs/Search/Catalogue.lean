/-
FlowPlanner.Proofs.Search.Catalogue — what the plans of a search have in common.

A catalogue is a set of plans in which numbers tell plans apart, every plan reads
plans of the set over exactly the connections of its node, its inputs made no two
choices for one fork, and its own choices are theirs at the forks still open
(`Problem.Catalogue`). At every stage the plans made so far are a catalogue
(`Reachable.catalogue`).
-/
import FlowPlanner.Proofs.Graph.Forks
import FlowPlanner.Proofs.Lists
import FlowPlanner.Proofs.Search.Alternatives
import FlowPlanner.Proofs.Search.Stage

namespace FlowPlanner

variable {α : Type}

/-! ## §1 Plans that read each other -/

namespace Plan

/-- One plan reads the other over a channel of its own. -/
def Reads (q r : Plan α) : Prop := ∃ ch ∈ q.inputs, ch.source = r

/-- One plan is the other or reads it through channels. -/
def Uses : Plan α → Plan α → Prop := Relation.ReflTransGen Reads

theorem Uses.refl (q : Plan α) : q.Uses q := Relation.ReflTransGen.refl

theorem Uses.trans {q r s : Plan α} (h : q.Uses r) (h' : r.Uses s) : q.Uses s :=
  Relation.ReflTransGen.trans h h'

theorem uses_of_mem {q : Plan α} {ch : Channel (Plan α)} (h : ch ∈ q.inputs) :
    q.Uses ch.source := Relation.ReflTransGen.single ⟨ch, h, rfl⟩

/-- Two plans do not use different plans of one node. -/
def Coincides (q q' : Plan α) : Prop :=
  ∀ r r', q.Uses r → q'.Uses r' → r.node = r'.node → r = r'

/-- What a plan uses is the plan, or one of its inputs uses it. -/
theorem Uses.cases_head {q r : Plan α} (h : q.Uses r) :
    r = q ∨ ∃ ch ∈ q.inputs, ch.source.Uses r := by
  rcases Relation.ReflTransGen.cases_head h with h | ⟨s, ⟨ch, hch, rfl⟩, h⟩
  · exact .inl h.symm
  · exact .inr ⟨ch, hch, h⟩

end Plan

namespace Problem

/-- The channel realizes the connection. -/
def Realizes (ch : Channel (Plan α)) (c : Connection) : Prop :=
  ch.connection = c.id ∧ ch.source.node = c.source

/-- A set of plans that only read each other, as their nodes read each other. -/
structure Catalogue (p : Problem α) (S : Plan α → Prop) : Prop where
  id_inj : ∀ q r, S q → S r → q.id = r.id → q = r
  node_lt : ∀ q, S q → q.node < p.graph.size
  sources : ∀ q, S q → ∀ ch ∈ q.inputs, S ch.source
  inputs : ∀ q, S q → List.Forall₂ Realizes q.inputs (p.graph.node q.node).inputs
  agree : ∀ q, S q → ∀ ch ∈ q.inputs, ∀ ch' ∈ q.inputs, Choices.Agree ch.choices ch'.choices
  choices : ∀ q, S q → ∃ merged, q.choices = p.choicesAt q.node q.id merged ∧
    ∀ k x, merged.find? k = some x ↔ ∃ ch ∈ q.inputs, ch.choices.find? k = some x

/-! ## §2 One settled node -/

variable [Quantity α] {p : Problem α}

/-- A plan that some combination of channels over kept plans became. -/
def Derived (p : Problem α) (kept : NodeId → List (Plan α)) (q : Plan α) : Prop :=
  ∃ t choices alt,
    p.Derives (p.graph.node q.node)
      ((p.graph.node q.node).inputs.map fun c => p.channels c (kept c.source)) t choices alt ∧
      q = p.plan (p.graph.node q.node) choices q.id alt

/-- What follows for a plan from the way in which it runs its node. -/
structure Founded (p : Problem α) (q : Plan α) : Prop where
  name : q.name = (p.graph.node q.node).name
  output : (q.placement, q.arrangement) = (p.graph.node q.node).output ⟨q.driver, q.inputs⟩
  own : q.own = p.ownCost (p.graph.node q.node) ⟨q.driver, q.inputs⟩
  cumulative : q.cumulative = Plan.cumulativeCost q.own q.inputs

/-- A derived plan runs its node in one of the ways that the node can run. -/
theorem Derived.exists_derives {kept : NodeId → List (Plan α)} {q : Plan α}
    (h : p.Derived kept q) : ∃ t choices, p.Derives (p.graph.node q.node)
      ((p.graph.node q.node).inputs.map fun c => p.channels c (kept c.source)) t choices
        ⟨q.driver, q.inputs⟩ ∧ q.choices = p.choicesAt (p.graph.node q.node).id q.id choices := by
  obtain ⟨t, choices, alt, hder, hplan⟩ := h
  have halt : (⟨q.driver, q.inputs⟩ : Alternative α) = alt := by
    rw [hplan]
    rfl
  refine ⟨t, choices, halt ▸ hder, ?_⟩
  conv_lhs => rw [hplan]
  rfl

theorem Derived.founded {kept : NodeId → List (Plan α)} {q : Plan α} (h : p.Derived kept q) :
    p.Founded q := by
  obtain ⟨t, choices, alt, -, hplan⟩ := h
  have halt : (⟨q.driver, q.inputs⟩ : Alternative α) = alt := by
    rw [hplan]
    rfl
  refine ⟨?_, ?_, ?_, ?_⟩
  · conv_lhs => rw [hplan]
    rfl
  · rw [halt]
    conv_lhs => rw [hplan]
    rfl
  · rw [halt]
    conv_lhs => rw [hplan]
    rfl
  · rw [hplan]
    rfl

/-- What is known of the plans at a stage. -/
structure Consistent (p : Problem α) (st : Stage α) : Prop where
  id_eq : ∀ (i : Nat) (q : Plan α), st.search.made[i]? = some q → q.id = i
  node_done : ∀ q ∈ st.search.made, q.node ∈ st.done
  derived : ∀ q ∈ st.search.made, p.Derived st.kept q
  kept_made : ∀ n, ∀ q ∈ st.kept n, q ∈ st.search.made ∧ q.node = n
  kept_ne_nil : ∀ n ∈ st.done, st.kept n ≠ []

theorem Consistent.id_inj {st : Stage α} (h : p.Consistent st) {q r : Plan α}
    (hq : q ∈ st.search.made) (hr : r ∈ st.search.made) (hid : q.id = r.id) : q = r := by
  obtain ⟨i, hi, hqi⟩ := Array.mem_iff_getElem.1 hq
  obtain ⟨j, hj, hrj⟩ := Array.mem_iff_getElem.1 hr
  have hqid := h.id_eq i q (by rw [Array.getElem?_eq_getElem hi, hqi])
  have hrid := h.id_eq j r (by rw [Array.getElem?_eq_getElem hj, hrj])
  obtain rfl : i = j := by rw [← hqid, ← hrid, hid]
  rw [← hqi, ← hrj]

theorem Consistent.kept_id_inj {st : Stage α} (h : p.Consistent st) (n : NodeId) :
    ∀ q ∈ st.kept n, ∀ r ∈ st.kept n, q.id = r.id → q = r :=
  fun _ hq _ hr => h.id_inj (h.kept_made n _ hq).1 (h.kept_made n _ hr).1

/-- What a plan was derived from stays when other nodes are settled. -/
theorem Derived.congr {kept kept' : NodeId → List (Plan α)} {q : Plan α} (h : p.Derived kept q)
    (hkept : ∀ c ∈ (p.graph.node q.node).inputs, kept' c.source = kept c.source) :
    p.Derived kept' q := by
  unfold Derived at h ⊢
  have hinputs : ((p.graph.node q.node).inputs.map fun c => p.channels c (kept' c.source)) =
      (p.graph.node q.node).inputs.map fun c => p.channels c (kept c.source) :=
    List.map_congr_left fun c hc => by rw [hkept c hc]
  rw [hinputs]
  exact h

/-- The candidates of a node are plans of the node, derived from what was kept before. -/
theorem Settles.derived (hg : p.graph.WellFormed) {st : Stage α} {n : NodeId} (hdue : p.Due st n)
    {kept : List (Plan α)} {s : Search α}
    (h : p.Settles (p.graph.node n) (p.channelsAt st n) st.search kept s) {q : Plan α}
    (hq : q ∈ (p.found (p.graph.node n) (p.channelsAt st n) st.search).plans) :
    q.node = n ∧ p.Derived st.kept q := by
  obtain ⟨t, choices, alt, id, hder, rfl, -, -⟩ := h.derives hq
  have hnode : (p.plan (p.graph.node n) choices id alt).node = n := hg.node_id n hdue.lt_size
  refine ⟨hnode, t, choices, alt, ?_, ?_⟩
  · rw [hnode]
    exact hder
  · rw [hnode]
    rfl

/-- Settling a node keeps the plans consistent. -/
theorem Consistent.settle (hg : p.graph.WellFormed) {st : Stage α} (hst : p.Reachable st)
    (h : p.Consistent st) {n : NodeId} (hdue : p.Due st n) {kept : List (Plan α)} {s : Search α}
    (hs : p.settle (p.graph.node n) (p.channelsAt st n) st.search = (.ok kept, s)) :
    p.Consistent (st.settle n kept s) := by
  have hsettles := settle_ok hs
  have hkept : ∀ m ∈ st.done, (st.settle n kept s).kept m = st.kept m := by
    intro m hm
    exact Stage.kept_settle_of_ne (hdue.ne_of_done hm)
  -- The new plans are those of the node.
  have hnew : ∀ q ∈ (p.found (p.graph.node n) (p.channelsAt st n) st.search).plans,
      q.node = n ∧ p.Derived (st.settle n kept s).kept q := by
    intro q hq
    obtain ⟨hnode, hderived⟩ := hsettles.derived hg hdue hq
    refine ⟨hnode, hderived.congr ?_⟩
    intro c hc
    rw [hnode] at hc
    exact hkept c.source (hdue.sources c hc)
  have hmade : (st.settle n kept s).search.made =
      st.search.made ++ (p.found (p.graph.node n) (p.channelsAt st n) st.search).plans :=
    hsettles.made_eq
  refine ⟨?_, ?_, ?_, ?_, ?_⟩
  · intro i q hi
    rw [hmade] at hi
    by_cases hlt : i < st.search.made.size
    · rw [Array.getElem?_append_left hlt] at hi
      exact h.id_eq i q hi
    · rw [Array.getElem?_append_right (Nat.le_of_not_lt hlt)] at hi
      obtain ⟨hj, hget⟩ := Array.getElem?_eq_some_iff.1 hi
      obtain ⟨-, hplans⟩ := p.found_spec (p.graph.node n) (p.channelsAt st n) st.search
      obtain ⟨t, choices, alt, -, hplan⟩ := hplans _ hj
      rw [← hget, hplan]
      show st.search.made.size + (i - st.search.made.size) = i
      omega
  · intro q hq
    rw [hmade] at hq
    rcases Array.mem_append.1 hq with hq | hq
    · exact List.mem_cons_of_mem n (h.node_done q hq)
    · rw [(hnew q hq).1]
      exact List.mem_cons_self
  · intro q hq
    rw [hmade] at hq
    rcases Array.mem_append.1 hq with hq | hq
    · refine (h.derived q hq).congr ?_
      intro c hc
      exact hkept c.source (hst.done_of_reaches (h.node_done q hq) (Graph.reaches_of_mem hc))
    · exact (hnew q hq).2
  · intro m q hq
    rw [hmade, Array.mem_append]
    by_cases hmn : m = n
    · subst hmn
      rw [Stage.kept_settle_self] at hq
      have hfound := hsettles.mem_found hq
      exact ⟨.inr hfound, (hnew q hfound).1⟩
    · rw [Stage.kept_settle_of_ne hmn] at hq
      exact ⟨.inl (h.kept_made m q hq).1, (h.kept_made m q hq).2⟩
  · intro m hm
    rcases List.mem_cons.1 hm with rfl | hm
    · rw [Stage.kept_settle_self]
      exact hsettles.kept_ne_nil
    · rw [hkept m hm]
      exact h.kept_ne_nil m hm

theorem Reachable.consistent (hg : p.graph.WellFormed) {st : Stage α} (hst : p.Reachable st) :
    p.Consistent st := by
  refine Reachable.induct (P := p.Consistent) ?_ ?_ hst
  · refine ⟨?_, ?_, ?_, ?_, ?_⟩ <;> simp
  · intro st n kept s hst h hdue hs
    exact h.settle hg hst hdue hs

/-! ## §3 The plans of a stage -/

omit [Quantity α] in
/-- Channels that were picked realize the connections of their node from kept plans. -/
theorem forall₂_of_picks {kept : NodeId → List (Plan α)} {t : List (Channel (Plan α))}
    {cs : List Connection} (hids : ∀ m, ∀ a ∈ kept m, ∀ b ∈ kept m, a.id = b.id → a = b)
    (ht : Picks t (cs.map fun c => p.channels c (kept c.source))) :
    List.Forall₂ (fun ch c => p.Carries ch c ∧ ch.source ∈ kept c.source) t cs := by
  refine (List.forall₂_map_right_iff.1 ht).imp ?_
  intro ch c hch
  obtain ⟨q, hq, hoffer⟩ := (mem_channels_iff (hids c.source)).1 hch
  refine ⟨(p.carries_baseChannel c q).becomes (becomes_of_mem_offers hoffer), ?_⟩
  rw [source_eq_of_mem_offers hoffer]
  exact hq

/-- What a derived plan reads: kept plans of the right nodes, over the right connections. -/
theorem Derived.inputs (hg : p.graph.WellFormed) {kept : NodeId → List (Plan α)} {q : Plan α}
    (hids : ∀ m, ∀ a ∈ kept m, ∀ b ∈ kept m, a.id = b.id → a = b)
    (hq : q.node < p.graph.size) (h : p.Derived kept q) :
    List.Forall₂ (fun ch c => p.Carries ch c ∧ ch.source ∈ kept c.source) q.inputs
        (p.graph.node q.node).inputs ∧
      ∃ choices, Channel.mergeChoices? Table.empty q.inputs = some choices ∧
        q.choices = p.choicesAt q.node q.id choices := by
  obtain ⟨t, choices, ⟨ht, hmerged, halt⟩, hchosen⟩ := h.exists_derives
  have hpicked := forall₂_of_picks hids ht
  have hbecomes := Node.becomes_of_mem_alternatives (hg.accepted q.node hq) hpicked.length_eq halt
  constructor
  · refine forall₂_of_left hpicked hbecomes ?_
    rintro ch c d ⟨hcarries, hkept⟩ hd
    exact ⟨hcarries.becomes hd, Channel.source_eq_of_route hd.route ▸ hkept⟩
  · refine ⟨choices, ?_, ?_⟩
    · have hchoices : q.inputs.map (·.choices) = t.map (·.choices) := by
        have h := congrArg (List.map fun r => r.1.choices) (Channel.Becomes.map_route hbecomes)
        rwa [List.map_map, List.map_map] at h
      have hmerge : ∀ cs : List (Channel (Plan α)), Channel.mergeChoices? Table.empty cs =
          (cs.map (·.choices)).foldlM Choices.merge? Table.empty := by
        intro cs
        unfold Channel.mergeChoices?
        rw [List.foldlM_map]
      rw [hmerge, hchoices, ← hmerge]
      exact hmerged
    · rw [hchosen, hg.node_id q.node hq]

/-- At every stage the plans made so far only read each other. -/
theorem Reachable.catalogue (hg : p.graph.WellFormed) {st : Stage α} (hst : p.Reachable st) :
    p.Catalogue (· ∈ st.search.made) := by
  have h := hst.consistent hg
  have hlt : ∀ q ∈ st.search.made, q.node < p.graph.size :=
    fun q hq => hst.lt_size (h.node_done q hq)
  have hinputs := fun q hq => (h.derived q hq).inputs hg h.kept_id_inj (hlt q hq)
  refine ⟨fun q r hq hr hid => h.id_inj hq hr hid, hlt, ?_, ?_, ?_, ?_⟩
  · intro q hq ch hch
    obtain ⟨c, -, -, hsource⟩ := exists_of_forall₂_left (hinputs q hq).1 hch
    exact (h.kept_made _ _ hsource).1
  · intro q hq
    refine (hinputs q hq).1.imp ?_
    intro ch c hc
    exact ⟨hc.1.connection, (h.kept_made _ _ hc.2).2⟩
  · intro q hq ch hch ch' hch'
    obtain ⟨-, choices, hmerged, -⟩ := hinputs q hq
    exact Channel.agree_of_mergeChoices? hmerged hch hch'
  · intro q hq
    obtain ⟨-, choices, hmerged, hchoices⟩ := hinputs q hq
    refine ⟨choices, hchoices, ?_⟩
    intro k x
    rw [Channel.find?_mergeChoices? hmerged]
    simp

/-- The channels of a plan realize the connections of its node. -/
theorem Reachable.carries (hg : p.graph.WellFormed) {st : Stage α} (hst : p.Reachable st)
    {q : Plan α} (hq : q ∈ st.search.made) :
    List.Forall₂ p.Carries q.inputs (p.graph.node q.node).inputs := by
  have h := hst.consistent hg
  have hinputs := (h.derived q hq).inputs hg h.kept_id_inj (hst.lt_size (h.node_done q hq))
  exact hinputs.1.imp fun _ _ hc => hc.1

/-- Plans that kept plans use were kept. -/
theorem Reachable.kept_of_uses (hg : p.graph.WellFormed) {st : Stage α} (hst : p.Reachable st)
    {q r : Plan α} (hq : q ∈ st.kept q.node) (hr : q.Uses r) : r ∈ st.kept r.node := by
  have h := hst.consistent hg
  induction hr with
  | refl => exact hq
  | tail _ hread ih =>
    obtain ⟨ch, hch, rfl⟩ := hread
    have hmade := (h.kept_made _ _ ih).1
    have hinputs := ((h.derived _ hmade).inputs hg h.kept_id_inj
      (hst.lt_size (h.node_done _ hmade))).1
    obtain ⟨c, -, -, hsource⟩ := exists_of_forall₂_left hinputs hch
    rw [(h.kept_made _ _ hsource).2]
    exact hsource

end Problem

end FlowPlanner
