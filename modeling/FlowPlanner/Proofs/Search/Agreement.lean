/-
FlowPlanner.Proofs.Search.Agreement — plans never mix two candidates of one node.

A search only compares choices at forks that are still open. That this is enough
is shown from the last common ancestor upwards: let two inputs of a plan both
lie below a node. If some connection of the node leads above both inputs, they
agree on the target of that connection, and so on what it reads. If none does,
the node is a fork, each way down leads around the other input, so the fork is
open at both inputs, and the choices they agreed on name the plan they use.
-/
import FlowPlanner.Proofs.Optimizer

namespace FlowPlanner

variable {α : Type}

namespace Problem

/-! ## §1 What plans use -/

theorem find?_choicesAt (p : Problem α) (node k : NodeId) (id : PlanId) (c : Choices) :
    (p.choicesAt node id c).find? k =
      if p.graph.isFork node = true ∧ k = node then some id
      else if (p.analysis.forkState node).isOpen k = true then c.find? k else none := by
  unfold choicesAt
  dsimp only
  by_cases hfork : p.graph.isFork node = true
  · rw [if_pos hfork, Table.find?_insert, Table.find?_filterKeys]
    by_cases hk : k = node <;> simp [hfork, hk]
  · rw [if_neg hfork, Table.find?_filterKeys]
    simp [hfork]

/-- What a plan chose at another node its inputs chose. -/
theorem find?_of_find?_choicesAt {p : Problem α} {node fork : NodeId} {id x : PlanId} {c : Choices}
    (hne : fork ≠ node) (h : (p.choicesAt node id c).find? fork = some x) :
    c.find? fork = some x := by
  rw [find?_choicesAt, if_neg fun h => hne h.2] at h
  split at h
  · exact h
  · simp at h

namespace Catalogue

variable {p : Problem α} {S : Plan α → Prop}

theorem of_uses (h : p.Catalogue S) {q r : Plan α} (hq : S q) (hqr : q.Uses r) : S r := by
  induction hqr with
  | refl => exact hq
  | tail _ hread ih =>
    obtain ⟨ch, hch, rfl⟩ := hread
    exact h.sources _ ih ch hch

/-- The channel of an input, by its connection. -/
theorem exists_channel (h : p.Catalogue S) {q : Plan α} (hq : S q) {c : Connection}
    (hc : c ∈ (p.graph.node q.node).inputs) : ∃ ch ∈ q.inputs, Realizes ch c := by
  have hflip := (h.inputs q hq).flip
  exact exists_of_forall₂_left hflip hc

/-- The connection of a channel. -/
theorem exists_connection (h : p.Catalogue S) {q : Plan α} (hq : S q) {ch : Channel (Plan α)}
    (hch : ch ∈ q.inputs) : ∃ c ∈ (p.graph.node q.node).inputs, Realizes ch c :=
  exists_of_forall₂_left (h.inputs q hq) hch

/-- Plans use plans of nodes that reach theirs. -/
theorem reaches_of_uses (h : p.Catalogue S) {q r : Plan α} (hq : S q) (hqr : q.Uses r) :
    p.graph.Reaches r.node q.node := by
  induction hqr with
  | refl => exact Graph.Reaches.refl _ _
  | tail hqs hread ih =>
    obtain ⟨ch, hch, rfl⟩ := hread
    obtain ⟨c, hc, -, hnode⟩ := h.exists_connection (h.of_uses hq hqs) hch
    rw [hnode]
    exact (Graph.reaches_of_mem hc).trans ih

/-- Plans use some plan of every node that reaches theirs. -/
theorem exists_uses (h : p.Catalogue S) {n m : NodeId} (hn : p.graph.Reaches n m) :
    ∀ {q : Plan α}, S q → q.node = m → ∃ r, q.Uses r ∧ r.node = n := by
  induction hn with
  | refl => exact fun {q} _ hm => ⟨q, Plan.Uses.refl q, hm⟩
  | tail _ hfeeds ih =>
    intro q hq hm
    obtain ⟨c, hc, rfl⟩ := hfeeds
    rw [← hm] at hc
    obtain ⟨ch, hch, -, hnode⟩ := h.exists_channel hq hc
    obtain ⟨r, hr, hrn⟩ := ih (h.sources q hq ch hch) hnode
    exact ⟨r, (Plan.uses_of_mem hch).trans hr, hrn⟩

/-- A family of the plans that a plan uses, one for every node that reaches its own. -/
theorem exists_uses_all (h : p.Catalogue S) {q : Plan α} (hq : S q) : ∃ κ : NodeId → Plan α,
    ∀ n, p.graph.Reaches n q.node → q.Uses (κ n) ∧ (κ n).node = n := by
  have hplan : ∀ n, ∃ r, p.graph.Reaches n q.node → q.Uses r ∧ r.node = n := by
    intro n
    by_cases hn : p.graph.Reaches n q.node
    · obtain ⟨r, hr⟩ := h.exists_uses hn hq rfl
      exact ⟨r, fun _ => hr⟩
    · exact ⟨q, fun h => absurd h hn⟩
  choose κ hκ using hplan
  exact ⟨κ, hκ⟩

/-- A plan of an input's node or above it stands before the plan that reads it. -/
theorem lt_of_uses_source (h : p.Catalogue S) (hg : p.graph.WellFormed) {q r : Plan α} (hq : S q)
    {ch : Channel (Plan α)} (hch : ch ∈ q.inputs) (hr : ch.source.Uses r) : r.node < q.node := by
  obtain ⟨c, hc, -, hnode⟩ := h.exists_connection hq hch
  have hreach := h.reaches_of_uses (h.sources q hq ch hch) hr
  rw [hnode] at hreach
  exact hg.lt_of_reaches_source hc hreach

/-! ## §2 Choices name the plans used -/

/-- The choices of a plan at a node say something of the fork. -/
def Tracks (p : Problem α) (n fork : NodeId) : Prop :=
  (n = fork ∧ p.graph.isFork fork = true) ∨ p.graph.IsOpenAt fork n

/-- The forks that the analysis has open at a node are those of the graph. -/
theorem isOpen_forkState_iff (hforks : p.analysis.forks = p.graph.forkStates) {n fork : NodeId} :
    (p.analysis.forkState n).isOpen fork = true ↔ p.graph.IsOpenAt fork n := by
  unfold Analysis.forkState
  rw [hforks]
  rfl

theorem exists_uses_of_tracks (h : p.Catalogue S) (hg : p.graph.WellFormed)
    (hforks : p.analysis.forks = p.graph.forkStates) {fork : NodeId} {q : Plan α} (hq : S q)
    (htracks : Tracks p q.node fork) :
    ∃ r, q.Uses r ∧ r.node = fork ∧ q.choices.find? fork = some r.id := by
  induction hn : q.node using Nat.strongRecOn generalizing q with
  | _ n ih =>
    obtain ⟨merged, hchoices, hmerged⟩ := h.choices q hq
    rcases htracks with ⟨hfork, hisFork⟩ | hopen
    · refine ⟨q, Plan.Uses.refl q, hfork, ?_⟩
      rw [hchoices, find?_choicesAt, if_pos ⟨by rw [hfork]; exact hisFork, hfork.symm⟩]
    · obtain ⟨c, hc, hcarries⟩ := Graph.exists_carries_of_isOpenAt hg.toNumbered
        (h.node_lt q hq) hopen
      obtain ⟨ch, hch, -, hnode⟩ := h.exists_channel hq hc
      have hlt := hg.source_lt _ c hc
      have hsource : Tracks p ch.source.node fork := by
        rw [hnode]
        exact hcarries
      obtain ⟨r, hr, hrfork, hrid⟩ := ih ch.source.node (by rw [hnode, ← hn]; exact hlt)
        (h.sources q hq ch hch) hsource rfl
      refine ⟨r, (Plan.uses_of_mem hch).trans hr, hrfork, ?_⟩
      have hne : fork ≠ q.node := by
        have hlt' := h.lt_of_uses_source hg hq hch hr
        rw [hrfork] at hlt'
        exact Nat.ne_of_lt hlt'
      rw [hchoices, find?_choicesAt, if_neg fun h => hne h.2,
        if_pos ((isOpen_forkState_iff hforks).2 hopen), hmerged]
      exact ⟨ch, hch, hrid⟩

/-- A choice names a plan in use, and is made at a fork. -/
theorem exists_uses_of_find?_choices (h : p.Catalogue S) (hg : p.graph.WellFormed) {fork : NodeId}
    {x : PlanId} {q : Plan α} (hq : S q) (hfind : q.choices.find? fork = some x) :
    ∃ r, q.Uses r ∧ r.node = fork ∧ r.id = x ∧ p.graph.isFork fork = true := by
  induction hn : q.node using Nat.strongRecOn generalizing q with
  | _ n ih =>
    obtain ⟨merged, hchoices, hmerged⟩ := h.choices q hq
    rw [hchoices, find?_choicesAt] at hfind
    split at hfind
    · rename_i hself
      refine ⟨q, Plan.Uses.refl q, hself.2.symm, Option.some.inj hfind, ?_⟩
      rw [hself.2]
      exact hself.1
    · split at hfind
      · obtain ⟨ch, hch, hx⟩ := (hmerged fork x).1 hfind
        have hlt := h.lt_of_uses_source hg hq hch (Plan.Uses.refl _)
        obtain ⟨r, hr, hrest⟩ := ih ch.source.node (by rw [← hn]; exact hlt)
          (h.sources q hq ch hch) hx rfl
        exact ⟨r, (Plan.uses_of_mem hch).trans hr, hrest⟩
      · simp at hfind

/-- A plan that chose at its own node is the plan of a fork and chose itself. -/
theorem eq_id_of_find?_choices (h : p.Catalogue S) (hg : p.graph.WellFormed) {q : Plan α} (hq : S q)
    {x : PlanId} (hx : q.choices.find? q.node = some x) :
    x = q.id ∧ p.graph.isFork q.node = true := by
  obtain ⟨r, hr, hrn, rfl, hfork⟩ := h.exists_uses_of_find?_choices hg hq hx
  rcases hr.cases_head with rfl | ⟨ch, hch, hr⟩
  · exact ⟨rfl, hfork⟩
  · exact absurd hrn (Nat.ne_of_lt (h.lt_of_uses_source hg hq hch hr))

/-! ## §3 One plan per node -/

/-- Every way from a node down to `n` starts with a connection that leaves it. -/
theorem exists_exit {g : Graph} (hg : g.Numbered) {z m n : NodeId} {c : Connection}
    (hc : c ∈ (g.node n).inputs) (hcm : c.source = m) (hzm : g.Reaches z m) :
    ∃ e ∈ g.outgoing z, (z = m ∧ e = c) ∨ (g.Reaches e.target m ∧ e.target ≠ n) := by
  rcases Relation.ReflTransGen.cases_head hzm with h | ⟨x, ⟨e, he, hez⟩, hxm⟩
  · exact ⟨c, Graph.mem_outgoing_iff.2 ⟨⟨n, hc⟩, hcm.trans h.symm⟩, .inl ⟨h, rfl⟩⟩
  · refine ⟨e, Graph.mem_outgoing_iff.2 ⟨⟨x, he⟩, hez⟩, .inr ?_⟩
    rw [hg.target_eq x e he]
    refine ⟨hxm, ?_⟩
    rintro rfl
    exact hg.not_reaches_source hc (hcm ▸ hxm)

/-- If no connection of a node leads above both of two inputs, the node is tracked at each. -/
theorem tracks_of_no_common_exit (hg : p.graph.WellFormed) {z m m' n : NodeId} {c c' : Connection}
    (hc : c ∈ (p.graph.node n).inputs) (hc' : c' ∈ (p.graph.node n).inputs)
    (hcm : c.source = m) (hcm' : c'.source = m') (hne : c ≠ c') (hzm : p.graph.Reaches z m)
    (hzm' : p.graph.Reaches z m')
    (hcommon : ¬ ∃ e ∈ p.graph.outgoing z,
      p.graph.Reaches e.target m ∧ p.graph.Reaches e.target m') : Tracks p m z := by
  obtain ⟨e, he, hexit⟩ := exists_exit hg.toNumbered hc hcm hzm
  obtain ⟨e', he', hexit'⟩ := exists_exit hg.toNumbered hc' hcm' hzm'
  have hee : e ≠ e' := by
    rintro rfl
    rcases hexit with ⟨-, rfl⟩ | ⟨hreach, htarget⟩
    · rcases hexit' with ⟨-, rfl⟩ | ⟨-, htarget⟩
      · exact hne rfl
      · exact htarget (hg.target_eq n e hc)
    · rcases hexit' with ⟨-, rfl⟩ | ⟨hreach', -⟩
      · exact htarget (hg.target_eq n e hc')
      · exact hcommon ⟨e, he, hreach, hreach'⟩
  by_cases hz : z = m
  · exact .inl ⟨hz.symm, Graph.isFork_of_ne he he' hee⟩
  · have hsize : m < p.graph.size := hcm ▸ hg.source_lt_size hc
    refine .inr (Graph.isOpenAt_of_leaves hg.toNumbered hsize hzm hz he' ?_)
    intro hreach
    rcases hexit' with ⟨-, rfl⟩ | ⟨hreach', -⟩
    · rw [hg.target_eq n e' hc', ← hcm] at hreach
      exact hg.not_reaches_source hc hreach
    · exact hcommon ⟨e', he', hreach, hreach'⟩

/-- A plan uses at most one plan of each node. -/
def Coherent (q : Plan α) : Prop :=
  ∀ r r', q.Uses r → q.Uses r' → r.node = r'.node → r = r'

/-- Two plans use the same plan of every node of a set, if from each of its nodes some connection
leads to another one of them, or both plans chose the same candidate of it. -/
theorem uses_agree (h : p.Catalogue S) (hg : p.graph.WellFormed) {a b : Plan α} (ha : S a)
    (hb : S b) (hcoh : Coherent a) (hcoh' : Coherent b) {T : NodeId → Prop}
    (habove : ∀ z, T z → p.graph.Reaches z a.node ∧ p.graph.Reaches z b.node)
    (hT : ∀ z, T z → (∃ e ∈ p.graph.outgoing z, T e.target) ∨
      ∃ x, a.choices.find? z = some x ∧ b.choices.find? z = some x)
    {r r' : Plan α} (hr : a.Uses r) (hr' : b.Uses r') (hnode : r.node = r'.node)
    (hz : T r.node) : r = r' := by
  -- The induction is from the plans upwards: on how far the node stands above the first one.
  induction hd : a.node - r.node using Nat.strongRecOn generalizing r r' with
  | _ d ih =>
    rcases hT r.node hz with ⟨e, he, htarget⟩ | ⟨x, hx, hx'⟩
    · obtain ⟨⟨y, hey⟩, hez⟩ := Graph.mem_outgoing_iff.1 he
      rw [hg.target_eq y e hey] at htarget
      obtain ⟨hy, hy'⟩ := habove y htarget
      obtain ⟨s, hs, hsy⟩ := h.exists_uses hy ha rfl
      obtain ⟨s', hs', hsy'⟩ := h.exists_uses hy' hb rfl
      have hlt : r.node < y := hez ▸ hg.source_lt y e hey
      obtain rfl : s = s' := by
        refine ih (a.node - s.node) ?_ hs hs' (hsy.trans hsy'.symm) (hsy ▸ htarget) rfl
        rw [← hd, hsy]
        exact Nat.sub_lt_sub_left (Nat.lt_of_lt_of_le hlt (hg.le_of_reaches hy)) hlt
      -- Both read the node over the connection, from the one plan they share.
      rw [← hsy] at hey
      obtain ⟨k, hk, -, hkz⟩ := h.exists_channel (h.of_uses ha hs) hey
      have hkr : k.source.node = r.node := hkz.trans hez
      rw [hcoh r k.source hr (hs.trans (Plan.uses_of_mem hk)) hkr.symm,
        hcoh' r' k.source hr' (hs'.trans (Plan.uses_of_mem hk)) (hnode.symm.trans hkr.symm)]
    · obtain ⟨s, hs, hsz, rfl, -⟩ := h.exists_uses_of_find?_choices hg ha hx
      obtain ⟨s', hs', hsz', hid, -⟩ := h.exists_uses_of_find?_choices hg hb hx'
      obtain rfl := hcoh r s hr hs hsz.symm
      obtain rfl := hcoh' r' s' hr' hs' (hnode.symm.trans hsz'.symm)
      exact (h.id_inj _ _ (h.of_uses hb hr') (h.of_uses ha hr) hid).symm

/-- Plans that two inputs of a node read use the same plan of every node above both, if they agree
on the forks they decided. -/
theorem coincide_of_agree (h : p.Catalogue S) (hg : p.graph.WellFormed)
    (hforks : p.analysis.forks = p.graph.forkStates) {a b : Plan α} (ha : S a) (hb : S b)
    {n : NodeId} {c c' : Connection} (hc : c ∈ (p.graph.node n).inputs)
    (hc' : c' ∈ (p.graph.node n).inputs) (hca : c.source = a.node) (hcb : c'.source = b.node)
    (hne : c ≠ c') (hcoh : Coherent a) (hcoh' : Coherent b)
    (hagree : Choices.Agree a.choices b.choices) : a.Coincides b := by
  intro r r' hr hr' hnode
  have hreach := h.reaches_of_uses ha hr
  have hreach' := h.reaches_of_uses hb hr'
  refine h.uses_agree hg ha hb hcoh hcoh' (fun z hz => hz) ?_ hr hr' hnode
    ⟨hreach, hnode ▸ hreach'⟩
  rintro z ⟨hz, hz'⟩
  by_cases hcommon : ∃ e ∈ p.graph.outgoing z,
      p.graph.Reaches e.target a.node ∧ p.graph.Reaches e.target b.node
  · exact .inl hcommon
  · have htracks : Tracks p a.node z :=
      tracks_of_no_common_exit hg hc hc' hca hcb hne hz hz' hcommon
    have htracks' : Tracks p b.node z := by
      refine tracks_of_no_common_exit hg hc' hc hcb hca hne.symm hz' hz ?_
      rintro ⟨e, he, h1, h2⟩
      exact hcommon ⟨e, he, h2, h1⟩
    obtain ⟨s, -, -, hs⟩ := h.exists_uses_of_tracks hg hforks ha htracks
    obtain ⟨s', -, -, hs'⟩ := h.exists_uses_of_tracks hg hforks hb htracks'
    have hid : s.id = s'.id := hagree _ _ _ hs hs'
    exact .inr ⟨s.id, hs, hid ▸ hs'⟩

/-- No plan uses two plans of one node. -/
theorem coherent (h : p.Catalogue S) (hg : p.graph.WellFormed)
    (hforks : p.analysis.forks = p.graph.forkStates) {q : Plan α} (hq : S q) : Coherent q := by
  induction hn : q.node using Nat.strongRecOn generalizing q with
  | _ n ih =>
    intro r r' hr hr' hnode
    have hsource : ∀ ch ∈ q.inputs, Coherent ch.source := by
      intro ch hch
      refine ih ch.source.node ?_ (h.sources q hq ch hch) rfl
      rw [← hn]
      exact h.lt_of_uses_source hg hq hch (Plan.Uses.refl _)
    rcases hr.cases_head with rfl | ⟨ch, hch, hru⟩
    · rcases hr'.cases_head with rfl | ⟨ch', hch', hru'⟩
      · rfl
      · exact absurd hnode.symm (Nat.ne_of_lt (h.lt_of_uses_source hg hq hch' hru'))
    · rcases hr'.cases_head with rfl | ⟨ch', hch', hru'⟩
      · exact absurd hnode (Nat.ne_of_lt (h.lt_of_uses_source hg hq hch hru))
      · obtain ⟨i, hi⟩ := List.mem_iff_getElem?.1 hch
        obtain ⟨j, hj⟩ := List.mem_iff_getElem?.1 hch'
        obtain ⟨c, hci, hcc⟩ := getElem?_of_forall₂ (h.inputs q hq) hi
        obtain ⟨c', hcj, hcc'⟩ := getElem?_of_forall₂ (h.inputs q hq) hj
        by_cases hij : i = j
        · subst hij
          rw [hi] at hj
          obtain rfl := Option.some.inj hj
          exact hsource ch hch r r' hru hru' hnode
        · have hne : c ≠ c' := by
            rintro rfl
            obtain ⟨hlt, -⟩ := List.getElem?_eq_some_iff.1 hci
            exact hij ((List.getElem?_inj hlt (hg.nodup_inputs q.node)).1 (hci.trans hcj.symm))
          exact h.coincide_of_agree hg hforks (h.sources q hq ch hch) (h.sources q hq ch' hch')
            (List.mem_of_getElem? hci) (List.mem_of_getElem? hcj) hcc.2.symm hcc'.2.symm hne
            (hsource ch hch) (hsource ch' hch') (h.agree q hq ch hch ch' hch') r r' hru hru' hnode

/-- Plans that use the same plan of every node above both agree on the forks they decided. -/
theorem agree_of_coincide (h : p.Catalogue S) (hg : p.graph.WellFormed) {a b : Plan α} (ha : S a)
    (hb : S b) (hab : a.Coincides b) : Choices.Agree a.choices b.choices := by
  intro fork x y hx hy
  obtain ⟨r, hr, hrn, rfl, -⟩ := h.exists_uses_of_find?_choices hg ha hx
  obtain ⟨r', hr', hrn', rfl, -⟩ := h.exists_uses_of_find?_choices hg hb hy
  rw [hab r r' hr hr' (hrn.trans hrn'.symm)]

end Catalogue

end Problem

/-! ## §4 Whole plans -/

/-- A plan runs its node and everything above it in one way: it uses one plan of each node, and each
connection between them is one channel. -/
structure Plan.Spans (g : Graph) (q : Plan α) : Prop where
  one_plan : ∀ n, g.Reaches n q.node → ∃! r, q.Uses r ∧ r.node = n
  within : ∀ r, q.Uses r → g.Reaches r.node q.node
  /-- A channel is told apart by the plan it enters and its position there. -/
  one_channel : ∀ n, g.Reaches n q.node → ∀ c ∈ (g.node n).inputs,
    ∃! e : Plan α × Nat, q.Uses e.1 ∧ ∃ ch, e.1.inputs[e.2]? = some ch ∧ ch.connection = c.id
  channels : ∀ r, q.Uses r → List.Forall₂ Problem.Realizes r.inputs (g.node r.node).inputs

theorem Problem.Catalogue.spans {p : Problem α} {S : Plan α → Prop} (h : p.Catalogue S)
    (hg : p.graph.WellFormed) (hforks : p.analysis.forks = p.graph.forkStates) {q : Plan α}
    (hq : S q) : q.Spans p.graph where
  one_plan n hn := by
    obtain ⟨r, hr, hrn⟩ := h.exists_uses hn hq rfl
    refine ⟨r, ⟨hr, hrn⟩, ?_⟩
    rintro r' ⟨hr', hrn'⟩
    exact h.coherent hg hforks hq r' r hr' hr (hrn'.trans hrn.symm)
  within r hr := h.reaches_of_uses hq hr
  one_channel n hn c hc := by
    obtain ⟨r, hr, rfl⟩ := h.exists_uses hn hq rfl
    have hinputs := h.inputs r (h.of_uses hq hr)
    obtain ⟨i, hci⟩ := List.mem_iff_getElem?.1 hc
    obtain ⟨ch, hch, hrealizes⟩ := getElem?_of_forall₂ hinputs.flip hci
    refine ⟨(r, i), ⟨hr, ch, hch, hrealizes.1⟩, ?_⟩
    rintro ⟨r', j⟩ ⟨hr', ch', hch', hid⟩
    dsimp only at hr' hch'
    have hinputs' := h.inputs r' (h.of_uses hq hr')
    obtain ⟨c', hcj, hrealizes'⟩ := getElem?_of_forall₂ hinputs' hch'
    have hc' := List.mem_of_getElem? hcj
    -- One number, so one connection, so one target and one position.
    obtain rfl : c' = c := hg.eq_of_id_eq (Graph.mem_connections_iff.2 ⟨_, hc'⟩)
      (Graph.mem_connections_iff.2 ⟨_, hc⟩) (hrealizes'.1.symm.trans hid)
    have hnode : r'.node = r.node := by
      rw [← hg.target_eq _ _ hc', ← hg.target_eq _ _ hc]
    obtain rfl := h.coherent hg hforks hq r' r hr' hr hnode
    obtain ⟨hlt, -⟩ := List.getElem?_eq_some_iff.1 hci
    obtain rfl : i = j :=
      (List.getElem?_inj hlt (hg.nodup_inputs r'.node)).1 (hci.trans hcj.symm)
    rfl
  channels r hr := h.inputs r (h.of_uses hq hr)

/-- However a search ends, every plan that it made uses one plan of each node above it, a plan of
the root one of every node; the ranked plans are among them. -/
theorem made_plans_span [Quantity α] {o : Optimizer α} {job : Job} {p : Problem α}
    (h : o.prepare job = .ok p) (clock : Nat → Nat) :
    (∀ q ∈ ({ p with clock }.candidates p.graph.root {}).2.made,
      q.Spans p.graph ∧
        (q.node = p.graph.root → ∀ n < p.graph.size, ∃! r, q.Uses r ∧ r.node = n)) ∧
      ∀ out, o.run job clock = .ok out → ∀ r ∈ out.ranked, r.plan.node = p.graph.root ∧
        r.plan ∈ ({ p with clock }.candidates p.graph.root {}).2.made := by
  have hp := (o.prepared h).withClock clock
  constructor
  · intro q hq
    obtain ⟨st, hst, hmade⟩ := Problem.exists_stage hp
    have hspans : q.Spans p.graph :=
      (hst.catalogue hp.wellFormed).spans hp.wellFormed hp.forks_eq (hmade ▸ hq)
    refine ⟨hspans, ?_⟩
    intro hroot n hn
    exact hspans.one_plan n (by rw [hroot]; exact hp.wellFormed.to_root n hn)
  · intro out hrun r hr
    obtain ⟨plans, s, first, rest, hcand, hrank, rfl⟩ := o.run_ok h hrun
    have hmem : r.plan ∈ plans := by
      refine (o.mem_ranking.1 ?_).1
      rw [hrank]
      exact List.mem_of_mem_take hr
    obtain ⟨st, hst, -, rfl, rfl⟩ := Problem.exists_stage_of_ok hp.wellFormed hcand
    have hkept := (hst.consistent hp.wellFormed).kept_made _ _ hmem
    rw [hcand]
    exact ⟨hkept.2, hkept.1⟩

/-- A source whose records two maps read, and a cross of the two. -/
def diamond : Job where
  operators :=
    [{ id := 1, name := "in", kind := .source {} },
     { id := 2, name := "left", kind := .map, inputs := [[1]] },
     { id := 3, name := "right", kind := .map, inputs := [[1]] },
     { id := 4, name := "pairs", kind := .cross, inputs := [[2], [3]] },
     { id := 5, name := "out", kind := .sink, inputs := [[4]] }]

/-- The plans of the root go down two ways to the source, and use one plan of it. -/
theorem made_plans_span_diamond : ∃ p, Optimizer.ofDefaults.prepare diamond = .ok p ∧
    ∃ q ∈ (p.candidates p.graph.root {}).2.made, q.node = p.graph.root ∧ q.Spans p.graph ∧
      ∀ n < p.graph.size, ∃! r, q.Uses r ∧ r.node = n := by
  obtain ⟨p, hprepare, hcheck⟩ := exists_ok_of_any (r := Optimizer.ofDefaults.prepare diamond)
    (f := fun p => (p.candidates p.graph.root {}).2.made.toList.any (·.node == p.graph.root))
    (by decide +kernel)
  simp only [List.any_eq_true, beq_iff_eq, Array.mem_toList_iff] at hcheck
  obtain ⟨q, hq, hroot⟩ := hcheck
  obtain ⟨hspans, hall⟩ := (made_plans_span hprepare p.clock).1 q hq
  exact ⟨p, hprepare, q, hq, hroot, hspans, hall hroot⟩

end FlowPlanner
