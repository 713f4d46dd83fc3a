/-
FlowPlanner.Proofs.Description.Listing — a described plan is the plan.

A description lists what a plan uses, producers first and without joiners. Nothing but
joiners reads what ends a branch, so the inputs of a listed plan are listed, and they
stand before it: no input is lost when it is looked up by number
(`Problem.Catalogue.input?_listed`). The walk up from the root comes to the joiners
first, one inside the other, and so to the sinks in their order
(`Problem.Catalogue.sinks_listed`).
-/
import FlowPlanner.Description
import FlowPlanner.Proofs.Graph.Sinks
import FlowPlanner.Proofs.Search.Inventory

namespace FlowPlanner

variable {α : Type}

/-! ## §1 Walks only add -/

mutual

theorem Plan.suffix_walkUp (w : Walk α) : ∀ q : Plan α, w.visited <:+ (q.walkUp w).visited
  | ⟨id, _, _, _, inputs, _, _, _, _, _⟩ => by
    rw [Plan.walkUp]
    split
    · exact List.suffix_rfl
    · exact (suffix_walkUpAll (w.meet id) inputs).trans (List.suffix_cons _ _)

theorem suffix_walkUpAll (w : Walk α) : ∀ cs : List (Channel (Plan α)),
    w.visited <:+ (walkUpAll w cs).visited
  | [] => by rw [walkUpAll]
  | c :: cs => by
    rw [walkUpAll]
    exact (suffix_walkUpChannel w c).trans (suffix_walkUpAll (walkUpChannel w c) cs)

theorem suffix_walkUpChannel (w : Walk α) : ∀ c : Channel (Plan α),
    w.visited <:+ (walkUpChannel w c).visited
  | ⟨source, _, _, _, _, _, _, _⟩ => by
    rw [walkUpChannel]
    exact source.suffix_walkUp w

end

/-! ## §2 What is listed -/

/-- The input is that of a channel into the plan at a position: it has the strategies of the channel
and names the plan that the channel reads, which is listed before. -/
structure InputDescription.Names (input : InputDescription) (plans : List (Plan α)) (position : Nat)
    (ch : Channel (Plan α)) : Prop where
  earlier : input.source < position
  producer : plans[input.source]? = some ch.source
  ship : input.ship = ch.ship
  work : input.work = ch.work

namespace Problem.Catalogue

open Description

variable {p : Problem α} {S : Plan α → Prop} {q r : Plan α}

theorem mem_listed (h : p.Catalogue S) (hg : p.graph.WellFormed) (hq : S q) :
    r ∈ listed p.graph q ↔ q.Uses r ∧ (p.graph.node r.node).kind.isJoiner = false := by
  unfold listed
  rw [List.mem_filter, (h.topological_spec hg hq).2, Bool.not_eq_true']

theorem nodup_listed (h : p.Catalogue S) (hg : p.graph.WellFormed) (hq : S q) :
    ((listed p.graph q).map (·.id)).Nodup :=
  (h.topological_spec hg hq).1.sublist (List.filter_sublist.map _)

/-- The listing of a plan of the root has one entry for each node that is no joiner. -/
theorem nodes_listed (h : p.Catalogue S) (hg : p.graph.WellFormed)
    (hforks : p.analysis.forks = p.graph.forkStates) (hq : S q) (hroot : q.node = p.graph.root) :
    ((listed p.graph q).map (·.node)).Perm
      ((List.range p.graph.size).filter fun n => !(p.graph.node n).kind.isJoiner) := by
  have hcoherent : ((listed p.graph q).map (·.node)).Nodup := by
    refine (List.Nodup.of_map (·.id) (h.nodup_listed hg hq)).map_on ?_
    intro r hr s hs hrs
    exact h.coherent hg hforks hq r s ((h.mem_listed hg hq).1 hr).1 ((h.mem_listed hg hq).1 hs).1
      hrs
  refine (List.perm_ext_iff_of_nodup hcoherent (List.nodup_range.filter _)).2 ?_
  intro n
  rw [List.mem_map, List.mem_filter, List.mem_range, Bool.not_eq_true']
  constructor
  · rintro ⟨r, hr, rfl⟩
    obtain ⟨huses, hkind⟩ := (h.mem_listed hg hq).1 hr
    exact ⟨h.node_lt r (h.of_uses hq huses), hkind⟩
  · rintro ⟨hn, hkind⟩
    obtain ⟨r, hr, rfl⟩ := h.exists_uses (hroot ▸ hg.to_root n hn) hq rfl
    exact ⟨r, (h.mem_listed hg hq).2 ⟨hr, hkind⟩, rfl⟩

/-- What a listed plan reads is listed before it. -/
theorem source_listed (h : p.Catalogue S) (hg : p.graph.WellFormed) (hdrains : p.graph.Drains)
    (hq : S q) {i : Nat} (hr : (listed p.graph q)[i]? = some r) {ch : Channel (Plan α)}
    (hch : ch ∈ r.inputs) : ch.source ∈ (listed p.graph q).take i := by
  obtain ⟨hi, hget⟩ := List.getElem?_eq_some_iff.1 hr
  obtain ⟨huses, hkind⟩ := (h.mem_listed hg hq).1 (List.mem_of_getElem? hr)
  have hsplit : listed p.graph q = (listed p.graph q).take i ++
      r :: (listed p.graph q).drop (i + 1) := by
    rw [← hget, List.getElem_cons_drop, List.take_append_drop]
  -- The same split in the listing that still has the joiners.
  obtain ⟨before, rest, htopological, hbefore, hrest⟩ := List.filter_eq_append_iff.1 hsplit
  obtain ⟨skipped, after, hafter, hskipped, -, -⟩ := List.filter_eq_cons_iff.1 hrest
  rw [hafter, ← List.append_assoc] at htopological
  have hmem := h.topological_ordered hg hq htopological ch hch
  obtain ⟨c, hc, hrealizes⟩ :=
    exists_of_forall₂_left (h.inputs r (h.of_uses hq huses)) hch
  have hsource : (p.graph.node ch.source.node).kind.isJoiner = false := by
    by_contra hjoiner
    have hends : p.graph.EndsAt c.source := by
      refine .inr ?_
      rw [← hrealizes.2]
      cases hk : (p.graph.node ch.source.node).kind with
      | operator kind =>
        rw [hk] at hjoiner
        simp [NodeKind.isJoiner] at hjoiner
      | sinkJoiner => rfl
    rw [(hdrains.reads r.node c hc).2 hends] at hkind
    simp [NodeKind.isJoiner] at hkind
  rcases List.mem_append.1 hmem with hmem | hmem
  · rw [← hbefore, List.mem_filter, hsource]
    exact ⟨hmem, rfl⟩
  · exact absurd (by rw [hsource]; rfl) (hskipped ch.source hmem)

/-- An input is found by its number, already among the plans listed before. -/
theorem input?_listed (h : p.Catalogue S) (hg : p.graph.WellFormed) (hdrains : p.graph.Drains)
    (hq : S q) {i : Nat} (hr : (listed p.graph q)[i]? = some r) {ch : Channel (Plan α)}
    (hch : ch ∈ r.inputs) : ∃ j, j < i ∧ (listed p.graph q)[j]? = some ch.source ∧
      input? (listed p.graph q) ch = some ⟨j, ch.ship, ch.work⟩ ∧
        input? ((listed p.graph q).take i) ch = some ⟨j, ch.ship, ch.work⟩ := by
  obtain ⟨j, hj⟩ := List.mem_iff_getElem?.1 (h.source_listed hg hdrains hq hr hch)
  have hj' : j < i ∧ (listed p.graph q)[j]? = some ch.source := by
    rw [List.getElem?_take] at hj
    split at hj
    · exact ⟨‹_›, hj⟩
    · simp at hj
  obtain ⟨hlt, hj'⟩ := hj'
  have hnodup := h.nodup_listed hg hq
  have hnodup' : (((listed p.graph q).take i).map (·.id)).Nodup :=
    hnodup.sublist ((List.take_sublist i _).map _)
  refine ⟨j, hlt, hj', ?_, ?_⟩
  · unfold input?
    rw [findIdx?_eq_of_nodup hnodup hj']
    rfl
  · unfold input?
    rw [findIdx?_eq_of_nodup hnodup' hj]
    rfl

/-- Every input of a listed plan is described, as the channel that it is. -/
theorem inputs_listed (h : p.Catalogue S) (hg : p.graph.WellFormed) (hdrains : p.graph.Drains)
    (hq : S q) {i : Nat} (hr : (listed p.graph q)[i]? = some r) :
    List.Forall₂ (fun input ch => input.Names (listed p.graph q) i ch)
      (r.inputs.filterMap (input? (listed p.graph q))) r.inputs := by
  refine forall₂_filterMap fun ch hch => ?_
  obtain ⟨j, hlt, hj, hinput, -⟩ := h.input?_listed hg hdrains hq hr hch
  exact ⟨_, hinput, hlt, hj, rfl, rfl⟩

/-- A listed plan that is no sink is an input of another one. -/
theorem exists_reader_listed (h : p.Catalogue S) (hg : p.graph.WellFormed)
    (hforks : p.analysis.forks = p.graph.forkStates) (hdrains : p.graph.Drains) (hq : S q)
    (hroot : q.node = p.graph.root) (hr : r ∈ listed p.graph q)
    (hsink : (p.graph.node r.node).kind.isSink = false) :
    ∃ s ∈ listed p.graph q, ∃ ch ∈ s.inputs, ch.source = r := by
  obtain ⟨huses, hkind⟩ := (h.mem_listed hg hq).1 hr
  have hends : ¬ p.graph.EndsAt r.node := by
    rintro (hends | hends)
    · rw [hsink] at hends
      simp at hends
    · rw [hends] at hkind
      simp [NodeKind.isJoiner] at hkind
  rcases Relation.ReflTransGen.cases_head (h.reaches_of_uses hq huses) with
    heq | ⟨n, ⟨c, hc, hcr⟩, hn⟩
  · rw [heq, hroot] at hends
    exact absurd hdrains.ties.endsAt hends
  · obtain ⟨s, hs, rfl⟩ := h.exists_uses hn hq rfl
    have hnot : (p.graph.node s.node).kind ≠ .sinkJoiner := by
      intro hjoiner
      exact hends (hcr ▸ (hdrains.reads _ c hc).1 hjoiner)
    have hlisted : s ∈ listed p.graph q := by
      refine (h.mem_listed hg hq).2 ⟨hs, ?_⟩
      cases hk : (p.graph.node s.node).kind with
      | operator kind => rfl
      | sinkJoiner => exact absurd hk hnot
    obtain ⟨ch, hch, -, hnode⟩ := h.exists_channel (h.of_uses hq hs) hc
    exact ⟨s, hlisted, ch, hch, h.coherent hg hforks hq _ _ (hs.trans (Plan.uses_of_mem hch)) huses
      (hnode.trans hcr)⟩

/-! ## §3 The order of the sinks -/

/-- A walk up to a sink that it did not visit yet visits that sink and no other. -/
theorem walkUp_sink (h : p.Catalogue S) (hg : p.graph.WellFormed)
    (hforks : p.analysis.forks = p.graph.forkStates) (hdrains : p.graph.Drains) (hq : S q)
    (hsink : (p.graph.node q.node).kind.isSink = true) {pending : List (Plan α)}
    (hpending : ∀ r ∈ pending, S r ∧ q.node < r.node) {w : Walk α} (hw : w.Rising S pending)
    (hfresh : q ∉ w.visited) :
    (q.walkUp w).visited.filter (fun r => (p.graph.node r.node).kind.isSink) =
      q :: w.visited.filter (fun r => (p.graph.node r.node).kind.isSink) := by
  obtain ⟨hrising, hcovers⟩ := h.walkUp_rising hg hq hpending hw
  obtain ⟨new, hnew⟩ := Plan.suffix_walkUp w q
  have hnodup : (new ++ w.visited).Nodup := by
    rw [hnew]
    exact List.Nodup.of_map (·.id) hrising.nodup
  obtain ⟨hnodup, -, hdisjoint⟩ := List.nodup_append.1 hnodup
  have hmem : q ∈ new := by
    have hq := hcovers.reached q (List.mem_singleton.2 rfl)
    rw [← hnew] at hq
    exact (List.mem_append.1 hq).resolve_right hfresh
  rw [← hnew, List.filter_append, eq_singleton_of_nodup (hnodup.filter _)
    (List.mem_filter.2 ⟨hmem, hsink⟩), List.singleton_append]
  intro r hr
  obtain ⟨hr, hrsink⟩ := List.mem_filter.1 hr
  have hold : r ∉ w.visited := fun hr' => hdisjoint r hr r hr' rfl
  have huses : q.Uses r := by
    rcases hcovers.only r (hnew ▸ List.mem_append_left _ hr) with hr' | ⟨t, ht, htr⟩
    · exact absurd hr' hold
    · rwa [List.mem_singleton.1 ht] at htr
  exact h.coherent hg hforks hq r q huses (Plan.Uses.refl q)
    (hdrains.eq_of_reaches (h.reaches_of_uses hq huses) (.inl hrsink) hsink)

/-- A first walk up to what ties sinks together visits these in order. -/
theorem walkUp_tied (h : p.Catalogue S) (hg : p.graph.WellFormed)
    (hforks : p.analysis.forks = p.graph.forkStates) (hdrains : p.graph.Drains) {n : NodeId}
    {ss : List NodeId} (hties : p.graph.Ties n ss) (hss : ss.Nodup) (hq : S q) (hn : q.node = n)
    {pending : List (Plan α)} (hpending : ∀ r ∈ pending, S r ∧ q.node < r.node) {w : Walk α}
    (hw : w.Rising S pending) (hfirst : w.visited = []) :
    ((q.walkUp w).visited.filter (fun r => (p.graph.node r.node).kind.isSink)).map (·.node) =
      ss.reverse := by
  induction hties generalizing q pending w with
  | sink kind =>
    rw [h.walkUp_sink hg hforks hdrains hq (hn ▸ kind) hpending hw (by simp [hfirst]), hfirst, ← hn]
    rfl
  | @join j r s ss kind sources first last ih =>
    obtain ⟨hbefore, -, hdisjoint⟩ := List.nodup_append.1 hss
    have hinputs := h.inputs q hq
    have hsources : q.inputs.map (·.source.node) = [r, s] := by
      rw [← sources, ← hn, ← List.forall₂_eq_eq_eq, List.forall₂_map_left_iff,
        List.forall₂_map_right_iff]
      exact hinputs.imp fun _ _ hrealizes => hrealizes.2
    obtain ⟨c₁, cs, hcs, rfl, hrest⟩ := List.map_eq_cons_iff.1 hsources
    obtain ⟨c₂, cs, rfl, rfl, hnil⟩ := List.map_eq_cons_iff.1 hrest
    obtain rfl := List.map_eq_nil_iff.1 hnil
    have hmem : ∀ c ∈ [c₁, c₂], c ∈ q.inputs := fun c hc => hcs ▸ hc
    have hS : ∀ c ∈ [c₁, c₂], S c.source ∧ c.source.node < q.node := fun c hc =>
      ⟨h.sources q hq c (hmem c hc), h.lt_of_uses_source hg hq (hmem c hc) (Plan.Uses.refl _)⟩
    have hpending' : ∀ c ∈ [c₁, c₂], ∀ r ∈ q :: pending, S r ∧ c.source.node < r.node := by
      intro c hc r hr
      rcases List.mem_cons.1 hr with rfl | hr
      · exact ⟨hq, (hS c hc).2⟩
      · exact ⟨(hpending r hr).1, Nat.lt_trans (hS c hc).2 (hpending r hr).2⟩
    have hmeet := hw.meet q
    have hseen : q.id ∉ w.seen := by
      intro hseen
      obtain ⟨r, hr | hr, hid⟩ := (hw.seen_iff q.id).1 hseen
      · simp [hfirst] at hr
      · obtain rfl := h.id_inj r q (hpending r hr).1 hq hid
        exact absurd (hpending r hr).2 (Nat.lt_irrefl _)
    have hc₁ := hS c₁ (by simp)
    have hc₂ := hS c₂ (by simp)
    have hwalk := ih hbefore hc₁.1 rfl (hpending' c₁ (by simp)) hmeet hfirst
    obtain ⟨hrising, hcovers⟩ := h.walkUp_rising hg hc₁.1 (hpending' c₁ (by simp)) hmeet
    have hfresh : c₂.source ∉ (c₁.source.walkUp (w.meet q.id)).visited := by
      intro hin
      rcases hcovers.only _ hin with hin | ⟨t, ht, huses⟩
      · rw [show (w.meet q.id).visited = w.visited from rfl, hfirst] at hin
        simp at hin
      · rw [List.mem_singleton.1 ht] at huses
        have hold := first.mem_of_reaches (fun a b => hdrains.eq_of_reaches) last
          (h.reaches_of_uses hc₁.1 huses)
        exact hdisjoint _ hold _ (List.mem_singleton.2 rfl) rfl
    have hjoiner : (p.graph.node q.node).kind.isSink = false := by
      rw [hn, kind]
      rfl
    rw [Plan.walkUp_eq, if_neg hseen, hcs, walkUpAll_cons, walkUpAll_cons, walkUpAll,
      show (Walk.visit _ q).visited = q :: Walk.visited _ from rfl,
      List.filter_cons_of_neg (by rw [hjoiner]; simp),
      h.walkUp_sink hg hforks hdrains hc₂.1 last (hpending' c₂ (by simp)) hrising hfresh,
      List.map_cons, hwalk, List.reverse_append, List.reverse_singleton, List.singleton_append]

/-- The sinks are listed in their order. -/
theorem sinks_listed (h : p.Catalogue S) (hg : p.graph.WellFormed)
    (hforks : p.analysis.forks = p.graph.forkStates) (hdrains : p.graph.Drains) (hq : S q)
    (hroot : q.node = p.graph.root) :
    ((listed p.graph q).filter fun r => (p.graph.node r.node).kind.isSink).map (·.node) =
      p.graph.sinks := by
  have hnodup : p.graph.sinks.Nodup := by
    rw [hdrains.sinks_eq]
    exact List.nodup_range.filter _
  have hnone : ∀ r ∈ ([] : List (Plan α)), S r ∧ q.node < r.node := by simp
  have hwalk := h.walkUp_tied hg hforks hdrains hdrains.ties hnodup hq hroot hnone
    (Walk.rising_start S) rfl
  have hskip : (listed p.graph q).filter (fun r => (p.graph.node r.node).kind.isSink) =
      q.topological.filter fun r => (p.graph.node r.node).kind.isSink := by
    unfold listed
    rw [List.filter_filter]
    refine List.filter_congr fun r _ => ?_
    cases (p.graph.node r.node).kind <;> simp [NodeKind.isSink, NodeKind.isJoiner]
  rw [hskip, Plan.topological, List.filter_reverse, List.map_reverse, hwalk, List.reverse_reverse]

end Problem.Catalogue

/-- A position is given as a sink just if its entry is one. -/
theorem Description.mem_sinkPositions {entries : List (NodeDescription α)} {i : Nat} :
    i ∈ sinkPositions entries ↔ ∃ e, entries[i]? = some e ∧ e.kind.isSink = true := by
  unfold sinkPositions
  simp only [List.mem_map, List.mem_filter, List.mem_zipIdx_iff_getElem?, Prod.exists]
  constructor
  · rintro ⟨e, j, ⟨he, hkind⟩, rfl⟩
    exact ⟨e, he, hkind⟩
  · rintro ⟨e, he, hkind⟩
    exact ⟨e, i, ⟨he, hkind⟩, rfl⟩

/-- The positions that are given as sinks are those of the sinks among what is described, in their
order. -/
theorem Description.forall₂_sinkPositions {β : Type} (f : β → NodeDescription α) (xs : List β) :
    List.Forall₂ (fun i x => xs[i]? = some x) (sinkPositions (xs.map f))
      (xs.filter fun x => (f x).kind.isSink) := by
  have hpositions : sinkPositions (xs.map f) =
      (xs.zipIdx.filter fun e => (f e.1).kind.isSink).map (·.2) := by
    unfold sinkPositions
    rw [List.zipIdx_map, List.filter_map, List.map_map]
    rfl
  have hentries : xs.filter (fun x => (f x).kind.isSink) =
      (xs.zipIdx.filter fun e => (f e.1).kind.isSink).map (·.1) := by
    conv_lhs => rw [← List.zipIdx_map_fst 0 xs]
    rw [List.filter_map]
    rfl
  rw [hpositions, hentries, List.forall₂_map_left_iff, List.forall₂_map_right_iff,
    List.forall₂_same]
  intro e he
  exact List.mem_zipIdx_iff_getElem?.1 (List.mem_of_mem_filter he)

end FlowPlanner
