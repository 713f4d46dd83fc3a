/-
FlowPlanner.Proofs.Search.Accounting — the books of a search.

A search counts for every node the plans that it made and those that it kept, and
over all nodes those that it made and those that it dropped. The counts of a node are
written when the node is settled, and a node is settled once. So at every stage the
entry of a settled node can be read off the plans, and the totals are sums over the
settled nodes (`Problem.Tallied`). A search that ends well settled all nodes; its
books are then those of the whole graph (`ended_searches_balance`).
-/
import FlowPlanner.Proofs.Search.Mirror
import FlowPlanner.Proofs.Search.Overlap
import Mathlib.Data.List.Sort

namespace FlowPlanner

variable {α : Type}

/-! ## §1 Entries and plans by node -/

/-- The keys of a table by number ascend. -/
theorem Table.sortedLT_keys {β : Type} (t : Table Nat β) : t.keys.SortedLT := by
  refine List.Pairwise.sortedLT (List.pairwise_map.2 ?_)
  exact t.ascending.imp fun h => Nat.compare_eq_lt.1 h

/-- The plans that a search made of a node. -/
def Search.madeAt (s : Search α) (n : NodeId) : List (Plan α) :=
  s.made.toList.filter (·.node == n)

/-- How many plans of a node were made and kept. -/
def Stage.count (st : Stage α) (n : NodeId) : NodeCount :=
  ⟨(st.search.madeAt n).length, (st.kept n).length⟩

namespace Problem

variable [Quantity α] {p : Problem α} {st : Stage α} {n : NodeId} {kept : List (Plan α)}
  {s : Search α}

namespace Settles

/-- Settling a node adds the plans found to those made of the node, and to no others. -/
theorem madeAt (hg : p.graph.WellFormed) (hdue : p.Due st n)
    (h : p.Settles (p.graph.node n) (p.channelsAt st n) st.search kept s) (m : NodeId) :
    s.madeAt m = st.search.madeAt m ++
      if m = n then (p.found (p.graph.node n) (p.channelsAt st n) st.search).plans.toList
      else [] := by
  have hnode : ∀ q ∈ (p.found (p.graph.node n) (p.channelsAt st n) st.search).plans.toList,
      q.node = n := fun q hq => (h.derived hg hdue (Array.mem_toList_iff.1 hq)).1
  unfold Search.madeAt
  rw [h.made_eq, Array.toList_append, List.filter_append]
  congr 1
  split
  · rename_i hm
    exact List.filter_eq_self.2 fun q hq => by simp [hnode q hq, hm]
  · rename_i hm
    exact List.filter_eq_nil_iff.2 fun q hq => by simp [hnode q hq, Ne.symm hm]

theorem madeAt_of_ne (hg : p.graph.WellFormed) (hdue : p.Due st n)
    (h : p.Settles (p.graph.node n) (p.channelsAt st n) st.search kept s) {m : NodeId}
    (hm : m ≠ n) : s.madeAt m = st.search.madeAt m := by
  rw [h.madeAt hg hdue, if_neg hm, List.append_nil]

/-- A node is settled once, so all plans made of it are those found then. -/
theorem madeAt_self (hg : p.graph.WellFormed) (hst : p.Reachable st) (hdue : p.Due st n)
    (h : p.Settles (p.graph.node n) (p.channelsAt st n) st.search kept s) :
    s.madeAt n = (p.found (p.graph.node n) (p.channelsAt st n) st.search).plans.toList := by
  have hfresh : st.search.madeAt n = [] := by
    refine List.filter_eq_nil_iff.2 ?_
    intro q hq hqn
    have hdone := (hst.consistent hg).node_done q (Array.mem_toList_iff.1 hq)
    rw [beq_iff_eq.1 hqn] at hdone
    exact hdue.fresh hdone
  rw [h.madeAt hg hdue, hfresh, if_pos rfl, List.nil_append]

theorem count_of_ne (hg : p.graph.WellFormed) (hdue : p.Due st n)
    (h : p.Settles (p.graph.node n) (p.channelsAt st n) st.search kept s) {m : NodeId}
    (hm : m ≠ n) : (st.settle n kept s).count m = st.count m := by
  unfold Stage.count
  rw [Stage.kept_settle_of_ne hm, ← h.madeAt_of_ne hg hdue hm]
  rfl

theorem count_self (hg : p.graph.WellFormed) (hst : p.Reachable st) (hdue : p.Due st n)
    (h : p.Settles (p.graph.node n) (p.channelsAt st n) st.search kept s) :
    (st.settle n kept s).count n =
      ⟨(p.found (p.graph.node n) (p.channelsAt st n) st.search).plans.size, kept.length⟩ := by
  unfold Stage.count
  rw [Stage.kept_settle_self, ← Array.length_toList, ← h.madeAt_self hg hst hdue]
  rfl

/-- A total over the settled nodes grows by the share of the node. -/
theorem sum_count (hg : p.graph.WellFormed) (hdue : p.Due st n)
    (h : p.Settles (p.graph.node n) (p.channelsAt st n) st.search kept s) (f : NodeCount → Nat) :
    ((st.settle n kept s).done.map fun m => f ((st.settle n kept s).count m)).sum =
      (st.done.map fun m => f (st.count m)).sum + f ((st.settle n kept s).count n) := by
  have hold : ∀ m ∈ st.done, f ((st.settle n kept s).count m) = f (st.count m) :=
    fun m hm => by rw [h.count_of_ne hg hdue (hdue.ne_of_done hm)]
  rw [show (st.settle n kept s).done = n :: st.done from rfl, List.map_cons, List.sum_cons,
    List.map_congr_left hold, Nat.add_comm]

end Settles

/-- The plans made of a settled node stay as they are. -/
theorem Steps.madeAt_eq (hg : p.graph.WellFormed) {st st' : Stage α} (h : p.Steps st st')
    (hn : n ∈ st.done) : st'.search.madeAt n = st.search.madeAt n := by
  induction h with
  | refl => rfl
  | tail hst hlast ih =>
    cases hlast with
    | settle hdue hs =>
      have hne := hdue.ne_of_done ((Steps.extends hst).done n hn)
      rw [← ih]
      exact (settle_ok hs).madeAt_of_ne hg hdue hne

/-! ## §2 The books of a stage -/

/-- The entry of a settled node counts its plans, and the totals are sums over the settled nodes. -/
structure Tallied (p : Problem α) (st : Stage α) : Prop where
  nodup : st.done.Nodup
  find?_perNode : ∀ n, st.search.perNode.find? n = if n ∈ st.done then some (st.count n) else none
  size_made : st.search.made.size = (st.done.map fun n => (st.count n).created).sum
  pruned_eq : st.search.pruned =
    (st.done.map fun n => (st.count n).created - (st.count n).retained).sum
  kept_sublist : ∀ n, (st.kept n).Sublist (st.search.madeAt n)
  kept_eq : p.config.prune = false → ∀ n, st.kept n = st.search.madeAt n

omit [Quantity α] in
theorem tallied_start (p : Problem α) : p.Tallied {} :=
  ⟨List.nodup_nil, by simp, rfl, rfl, fun _ => List.Sublist.refl _, fun _ _ => rfl⟩

/-- Settling a node writes its entry and leaves those of other nodes alone. -/
theorem Tallied.settle (hg : p.graph.WellFormed) (hst : p.Reachable st) (h : p.Tallied st)
    (hdue : p.Due st n)
    (hs : p.settle (p.graph.node n) (p.channelsAt st n) st.search = (.ok kept, s)) :
    p.Tallied (st.settle n kept s) := by
  have hsettles := settle_ok hs
  have hself := hsettles.madeAt_self hg hst hdue
  have hcount := hsettles.count_self hg hst hdue
  have hsearch : (st.settle n kept s).search = s := rfl
  refine ⟨List.nodup_cons.2 ⟨hdue.fresh, h.nodup⟩, ?_, ?_, ?_, ?_, ?_⟩
  · intro m
    rw [hsearch, hsettles.perNode_eq, hg.node_id n hdue.lt_size, h.find?_perNode n,
      if_neg hdue.fresh, Table.find?_insert]
    by_cases hm : m = n
    · subst hm
      have hdone : m ∈ (st.settle m kept s).done := List.mem_cons_self
      rw [if_pos (Nat.compare_eq_eq.2 rfl), if_pos hdone, hcount]
      simp
    · rw [if_neg (fun heq => hm (Nat.compare_eq_eq.1 heq)), h.find?_perNode m,
        hsettles.count_of_ne hg hdue hm]
      simp [Stage.settle, hm]
  · rw [hsettles.sum_count hg hdue NodeCount.created, hcount, ← h.size_made, hsearch,
      hsettles.made_eq, Array.size_append]
  · rw [hsettles.sum_count hg hdue fun c => c.created - c.retained, hcount, ← h.pruned_eq, hsearch,
      hsettles.pruned_eq]
  · intro m
    by_cases hm : m = n
    · subst hm
      rw [Stage.kept_settle_self, hsearch, hself]
      exact hsettles.kept_sublist
    · rw [Stage.kept_settle_of_ne hm, hsearch, hsettles.madeAt_of_ne hg hdue hm]
      exact h.kept_sublist m
  · intro hprune m
    by_cases hm : m = n
    · subst hm
      rw [Stage.kept_settle_self, hsearch, hself, hsettles.kept_eq]
      unfold survivors
      rw [hprune]
      rfl
    · rw [Stage.kept_settle_of_ne hm, hsearch, hsettles.madeAt_of_ne hg hdue hm]
      exact h.kept_eq hprune m

theorem Reachable.tallied (hg : p.graph.WellFormed) (hst : p.Reachable st) : p.Tallied st :=
  Reachable.induct (P := p.Tallied) p.tallied_start
    (fun _ _ _ _ hst h hdue hs => h.settle hg hst hdue hs) hst

omit [Quantity α] in
/-- The entries are the counts of the settled nodes. -/
theorem Tallied.perm_entries (h : p.Tallied st) :
    st.search.perNode.entries.Perm (st.done.map fun n => (n, st.count n)) := by
  have hentries : st.search.perNode.entries.Nodup :=
    List.Nodup.of_map Prod.fst st.search.perNode.sortedLT_keys.nodup
  have hcounts : (st.done.map fun n => (n, st.count n)).Nodup :=
    h.nodup.map fun _ _ heq => (Prod.mk.inj heq).1
  refine (List.perm_ext_iff_of_nodup hentries hcounts).2 ?_
  rintro ⟨n, c⟩
  rw [Table.mem_entries_iff, h.find?_perNode n]
  by_cases hn : n ∈ st.done <;> simp [hn]

/-! ## §3 The books of a search -/

/-- The books of a search are in order: there is one entry for each node, which counts the plans
made of it and those kept, at least one of them; the plans made are numbered as they come; both
totals are the sums of the entries; and plans read plans that were kept. -/
structure Balances (p : Problem α) (kept : NodeId → List (Plan α)) (s : Search α) : Prop where
  keys_eq : s.perNode.keys = List.range p.graph.size
  entries : ∀ e ∈ s.perNode.entries, e.2 = ⟨(s.madeAt e.1).length, (kept e.1).length⟩
  kept_sublist : ∀ n, (kept n).Sublist (s.madeAt n)
  retained : ∀ e ∈ s.perNode.entries, 1 ≤ e.2.retained ∧ e.2.retained ≤ e.2.created
  unpruned : p.config.prune = false → ∀ e ∈ s.perNode.entries, e.2.retained = e.2.created
  numbered : s.made.toList.map (·.id) = List.range s.made.size
  sum_created : (s.perNode.entries.map fun e => e.2.created).sum = s.made.size
  sum_dropped : (s.perNode.entries.map fun e => e.2.created - e.2.retained).sum = s.pruned
  reads : ∀ q ∈ s.made, List.Forall₂ (fun ch c => Realizes ch c ∧ ch.source ∈ kept c.source)
    q.inputs (p.graph.node q.node).inputs

/-- Once the root is settled every node is, and none is settled twice. -/
theorem Reachable.perm_done (hg : p.graph.WellFormed) (hst : p.Reachable st)
    (hdone : p.graph.root ∈ st.done) : st.done.Perm (List.range p.graph.size) := by
  refine (List.perm_ext_iff_of_nodup (hst.tallied hg).nodup List.nodup_range).2 ?_
  intro n
  rw [List.mem_range]
  exact ⟨hst.lt_size, fun hn => hst.done_of_reaches hdone (hg.to_root n hn)⟩

theorem Reachable.balances (hg : p.graph.WellFormed) (hst : p.Reachable st)
    (hdone : p.graph.root ∈ st.done) : p.Balances st.kept st.search := by
  have hcons := hst.consistent hg
  have htallied := hst.tallied hg
  have hperm := htallied.perm_entries
  have hentry : ∀ e ∈ st.search.perNode.entries, e.1 ∈ st.done ∧ e.2 = st.count e.1 := by
    intro e he
    obtain ⟨n, hn, rfl⟩ := List.mem_map.1 (hperm.mem_iff.1 he)
    exact ⟨hn, rfl⟩
  have hsum : ∀ f : NodeCount → Nat, (st.search.perNode.entries.map fun e => f e.2).sum =
      (st.done.map fun n => f (st.count n)).sum := by
    intro f
    rw [(hperm.map fun e => f e.2).sum_eq, List.map_map]
    rfl
  refine ⟨?_, fun e he => (hentry e he).2, htallied.kept_sublist, ?_, ?_, ?_, ?_, ?_, ?_⟩
  · refine st.search.perNode.sortedLT_keys.eq_of_mem_iff (List.sortedLT_range _) ?_
    have hkeys := (hperm.map Prod.fst).trans (List.Perm.of_eq (List.map_map ..))
    intro n
    rw [← (hst.perm_done hg hdone).mem_iff, Table.keys, hkeys.mem_iff]
    simp
  · intro e he
    obtain ⟨hn, hcount⟩ := hentry e he
    rw [hcount]
    exact ⟨List.length_pos_iff.2 (hcons.kept_ne_nil e.1 hn),
      (htallied.kept_sublist e.1).length_le⟩
  · intro hprune e he
    rw [(hentry e he).2]
    exact congrArg List.length (htallied.kept_eq hprune e.1)
  · refine List.ext_getElem (by simp) ?_
    intro i hi _
    have hlt : i < st.search.made.size := by simpa using hi
    simpa using hcons.id_eq i _ (Array.getElem?_eq_getElem hlt)
  · rw [hsum NodeCount.created, htallied.size_made]
  · rw [hsum fun c => c.created - c.retained, htallied.pruned_eq]
  · intro q hq
    have hinputs := (hcons.derived q hq).inputs hg hcons.kept_id_inj
      (hst.lt_size (hcons.node_done q hq))
    refine hinputs.1.imp ?_
    rintro ch c ⟨hcarries, hkept⟩
    exact ⟨⟨hcarries.connection, (hcons.kept_made _ _ hkept).2⟩, hkept⟩

end Problem

/-- A search that ends well, whatever its limits, settled every node once, and its books are in
order; a run that ends well is one of these. -/
theorem ended_searches_balance [Quantity α] {o : Optimizer α} {job : Job} {p : Problem α}
    (h : o.prepare job = .ok p) :
    (∀ clock plans s, { p with clock }.candidates p.graph.root {} = (.ok plans, s) →
      ∃ st, { p with clock }.Reachable st ∧ st.done.Perm (List.range p.graph.size) ∧
        st.search = s ∧ st.kept p.graph.root = plans ∧ { p with clock }.Balances st.kept s) ∧
      ∀ clock out, o.run job clock = .ok out →
        ∃ plans, { p with clock }.candidates p.graph.root {} = (.ok plans, out.search) := by
  have hp := o.prepared h
  constructor
  · intro clock plans s hok
    have hg : { p with clock }.graph.WellFormed := hp.wellFormed
    obtain ⟨st, hst, hdone, rfl, rfl⟩ := Problem.exists_stage_of_ok hg hok
    have hperm := Problem.Reachable.perm_done hg hst hdone
    exact ⟨st, hst, hperm, rfl, rfl, Problem.Reachable.balances hg hst hdone⟩
  · intro clock out hrun
    obtain ⟨plans, s, first, rest, hcand, -, rfl⟩ := o.run_ok h hrun
    exact ⟨plans, hcand⟩

/-- The join is cut short after six plans, of which one is kept; the grouping above it is read
twice, and counted once. -/
theorem ended_searches_balance_groupsBeside : ∃ p plans s,
    (Optimizer.ofUnitWeights.withLimits true (some 9) none).prepare groupsBeside = .ok p ∧
      p.candidates p.graph.root {} = (.ok plans, s) ∧ s.exhausted = true ∧
        s.perNode.entries.map (·.2) =
          [⟨1, 1⟩, ⟨1, 1⟩, ⟨1, 1⟩, ⟨6, 1⟩, ⟨1, 1⟩, ⟨1, 1⟩, ⟨1, 1⟩] ∧
            s.made.size = 12 ∧ s.pruned = 5 ∧ ∃ st, p.Reachable st ∧
              st.done.Perm (List.range p.graph.size) ∧ p.Balances st.kept s := by
  obtain ⟨p, hprepare, hcheck⟩ := exists_ok_of_any
    (r := (Optimizer.ofUnitWeights.withLimits true (some 9) none).prepare groupsBeside)
    (f := fun p => match p.candidates p.graph.root {} with
      | (.error _, _) => false
      | (.ok _, s) => s.exhausted && s.perNode.entries.map (·.2) ==
          [⟨1, 1⟩, ⟨1, 1⟩, ⟨1, 1⟩, ⟨6, 1⟩, ⟨1, 1⟩, ⟨1, 1⟩, ⟨1, 1⟩] &&
            s.made.size == 12 && s.pruned == 5) (by decide +kernel)
  split at hcheck
  · simp at hcheck
  · rename_i plans s hcand
    simp only [Bool.and_eq_true, beq_iff_eq] at hcheck
    obtain ⟨⟨⟨hexhausted, hentries⟩, hsize⟩, hpruned⟩ := hcheck
    obtain ⟨st, hst, hdone, -, -, hbalances⟩ :=
      (ended_searches_balance hprepare).1 p.clock plans s hcand
    exact ⟨p, plans, s, hprepare, hcand, hexhausted, hentries, hsize, hpruned, st, hst, hdone,
      hbalances⟩

end FlowPlanner
