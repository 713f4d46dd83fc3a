/-
FlowPlanner.Proofs.Search.Stage — a search as a run of a state machine.

The search descends from the root and settles nodes on the way back, a fork only
the first time it is met. Seen from outside it settles one node after the other,
each after its producers and each once: `Problem.Step` is one such step,
`Problem.Reachable` what can be reached from the start, and
`candidates_of_reachable` says that a search does nothing else. Facts about all
runs are then proved by showing that a step keeps them.
-/
import FlowPlanner.Proofs.Graph.WellFormed
import FlowPlanner.Proofs.Search.Settle
import Mathlib.Logic.Function.Basic

namespace FlowPlanner

variable {α : Type}

namespace Graph

/-! ## §1 The order of a search -/

/-- The nodes that are done after a node was visited, the latest first: what it reads, input by
input, and then the node; a fork only if it was not done before. -/
def visitWithin (g : Graph) : Nat → NodeId → List NodeId → List NodeId
  | 0, _, done => done
  | depth + 1, n, done =>
    if n ∈ done ∧ g.isFork n = true then done
    else n :: (g.node n).inputs.foldl (fun done c => g.visitWithin depth c.source done) done

/-- All nodes in the order in which a search settles them, the latest first. -/
def schedule (g : Graph) : List NodeId := g.visitWithin g.size g.root []

theorem suffix_foldl {visit : NodeId → List NodeId → List NodeId}
    (hvisit : ∀ m done, done <:+ visit m done) : ∀ (cs : List Connection) (done : List NodeId),
      done <:+ cs.foldl (fun done c => visit c.source done) done
  | [], _ => List.suffix_rfl
  | c :: cs, done => (hvisit c.source done).trans (suffix_foldl hvisit cs _)

/-- A visit only adds to what is done. -/
theorem suffix_visitWithin (g : Graph) : ∀ (depth : Nat) (n : NodeId) (done : List NodeId),
    done <:+ g.visitWithin depth n done
  | 0, _, done => List.suffix_rfl
  | depth + 1, n, done => by
    unfold visitWithin
    split
    · exact List.suffix_rfl
    · exact (suffix_foldl (g.suffix_visitWithin depth) _ done).trans (List.suffix_cons n _)

end Graph

/-! ## §2 Stages and steps -/

/-- Where a search stands between two nodes. -/
structure Stage (α : Type) where
  /-- The nodes settled so far, the latest first. -/
  done : List NodeId := []
  /-- The candidates kept for each of them. -/
  kept : NodeId → List (Plan α) := fun _ => []
  search : Search α := {}

/-- One more node is settled. -/
def Stage.settle (st : Stage α) (n : NodeId) (kept : List (Plan α)) (s : Search α) : Stage α :=
  { done := n :: st.done, kept := Function.update st.kept n kept, search := s }

namespace Stage

theorem kept_settle_of_ne {st : Stage α} {m n : NodeId} {kept : List (Plan α)} {s : Search α}
    (h : m ≠ n) : (st.settle n kept s).kept m = st.kept m := by
  unfold Stage.settle
  exact Function.update_of_ne h kept st.kept

theorem kept_settle_self (st : Stage α) (n : NodeId) (kept : List (Plan α)) (s : Search α) :
    (st.settle n kept s).kept n = kept := by
  unfold Stage.settle
  exact Function.update_self n kept st.kept

/-- Settled nodes stay settled, with the same candidates. -/
structure Extends (st st' : Stage α) : Prop where
  done : ∀ n ∈ st.done, n ∈ st'.done
  kept : ∀ n ∈ st.done, st'.kept n = st.kept n

end Stage

namespace Problem

variable [Quantity α] {p : Problem α}

/-- The channels of a node's inputs. -/
def channelsAt (p : Problem α) (st : Stage α) (n : NodeId) : List (List (Channel (Plan α))) :=
  (p.graph.node n).inputs.map fun c => p.channels c (st.kept c.source)

/-- A node is due: it was not settled yet, and its producers were. -/
structure Due (p : Problem α) (st : Stage α) (n : NodeId) : Prop where
  fresh : n ∉ st.done
  sources : ∀ c ∈ (p.graph.node n).inputs, c.source ∈ st.done
  lt_size : n < p.graph.size

omit [Quantity α] in
theorem Due.ne_of_done {st : Stage α} {n : NodeId} (h : p.Due st n) {m : NodeId}
    (hm : m ∈ st.done) : m ≠ n := by
  rintro rfl
  exact h.fresh hm

/-- One node is settled. -/
inductive Step (p : Problem α) : Stage α → Stage α → Prop
  | settle {st : Stage α} {n : NodeId} {kept : List (Plan α)} {s : Search α} (hdue : p.Due st n)
      (h : p.settle (p.graph.node n) (p.channelsAt st n) st.search = (.ok kept, s)) :
      Step p st (st.settle n kept s)

/-- Some nodes are settled. -/
def Steps (p : Problem α) : Stage α → Stage α → Prop := Relation.ReflTransGen p.Step

/-- What a search can get to. -/
def Reachable (p : Problem α) (st : Stage α) : Prop := p.Steps {} st

theorem Reachable.steps {st st' : Stage α} (h : p.Reachable st) (h' : p.Steps st st') :
    p.Reachable st' :=
  Relation.ReflTransGen.trans h h'

/-- What holds at the start and is kept by every step holds always. -/
theorem Reachable.induct {P : Stage α → Prop} (hstart : P {})
    (hstep : ∀ st n kept s, p.Reachable st → P st → p.Due st n →
      p.settle (p.graph.node n) (p.channelsAt st n) st.search = (.ok kept, s) →
        P (st.settle n kept s))
    {st : Stage α} (h : p.Reachable st) : P st := by
  induction h with
  | refl => exact hstart
  | tail hst hlast ih =>
    cases hlast with
    | settle hdue h => exact hstep _ _ _ _ hst ih hdue h

/-- A node that failed in the course of a search. -/
structure Fails (p : Problem α) (st : Stage α) (n : NodeId) (e : Failure) (s : Search α) :
    Prop where
  reachable : p.Reachable st
  due : p.Due st n
  fails : p.settle (p.graph.node n) (p.channelsAt st n) st.search = (.error e, s)

/-! ## §3 What steps keep -/

theorem Steps.extends {st st' : Stage α} (h : p.Steps st st') : Stage.Extends st st' := by
  induction h with
  | refl => exact ⟨fun _ h => h, fun _ _ => rfl⟩
  | tail _ hlast ih =>
    cases hlast with
    | @settle n kept s hdue _ =>
      refine ⟨fun m hm => List.mem_cons_of_mem n (ih.done m hm), ?_⟩
      intro m hm
      rw [Stage.kept_settle_of_ne (hdue.ne_of_done (ih.done m hm)), ih.kept m hm]

/-- Whatever reaches a settled node is settled. -/
theorem Reachable.done_of_reaches {st : Stage α} (h : p.Reachable st) {a n : NodeId}
    (hn : n ∈ st.done) (han : p.graph.Reaches a n) : a ∈ st.done := by
  have hsources : ∀ n ∈ st.done, ∀ c ∈ (p.graph.node n).inputs, c.source ∈ st.done := by
    refine Reachable.induct (P := fun st => ∀ n ∈ st.done, ∀ c ∈ (p.graph.node n).inputs,
      c.source ∈ st.done) (by simp) ?_ h
    intro st n kept s _ ih hdue _ m hm c hc
    rcases List.mem_cons.1 hm with rfl | hm
    · exact List.mem_cons_of_mem _ (hdue.sources c hc)
    · exact List.mem_cons_of_mem _ (ih m hm c hc)
  induction han using Relation.ReflTransGen.head_induction_on with
  | refl => exact hn
  | head hab _ ih =>
    obtain ⟨c, hc, rfl⟩ := hab
    exact hsources _ ih c hc

theorem Reachable.lt_size {st : Stage α} (h : p.Reachable st) {n : NodeId} (hn : n ∈ st.done) :
    n < p.graph.size := by
  refine Reachable.induct (P := fun st => ∀ n ∈ st.done, n < p.graph.size) (by simp) ?_ h n hn
  intro st n kept s _ ih hdue _ m hm
  rcases List.mem_cons.1 hm with rfl | hm
  · exact hdue.lt_size
  · exact ih m hm

/-- The memo of a search holds the forks that were settled. -/
theorem Reachable.find?_forks (hg : p.graph.WellFormed) {st : Stage α} (h : p.Reachable st)
    (m : NodeId) : st.search.forks.find? m =
      if m ∈ st.done ∧ p.graph.isFork m = true then some (st.kept m) else none := by
  refine Reachable.induct (P := fun st => ∀ m, st.search.forks.find? m =
    if m ∈ st.done ∧ p.graph.isFork m = true then some (st.kept m) else none) ?_ ?_ h m
  · intro m
    simp
  · intro st n kept s _ ih hdue h m
    have hid := hg.node_id n hdue.lt_size
    rw [show (st.settle n kept s).search = s from rfl, (settle_ok h).forks_eq, hid]
    by_cases hmn : m = n
    · subst hmn
      rw [Stage.kept_settle_self]
      by_cases hfork : p.graph.isFork m = true
      · rw [if_pos hfork, Table.find?_insert, if_pos (by simp), if_pos]
        exact ⟨List.mem_cons_self, hfork⟩
      · rw [if_neg hfork, ih m, if_neg (fun hm => hfork hm.2), if_neg (fun hm => hfork hm.2)]
    · have hfind : (if p.graph.isFork n = true then st.search.forks.insert n kept
          else st.search.forks).find? m = st.search.forks.find? m := by
        split
        · rw [Table.find?_insert, if_neg (by simpa using hmn)]
        · rfl
      rw [hfind, ih m, Stage.kept_settle_of_ne hmn]
      simp [Stage.settle, hmn]

/-! ## §4 A search takes steps only -/

/-- Some nodes and all that reaches them are settled, in a given order, and nothing else is. -/
structure Visits (p : Problem α) (st : Stage α) (targets order : List NodeId) (st' : Stage α) :
    Prop where
  steps : p.Steps st st'
  done_eq : st'.done = order
  reached : ∀ t ∈ targets, t ∈ st'.done
  only : ∀ m ∈ st'.done, m ∈ st.done ∨ ∃ t ∈ targets, p.graph.Reaches m t

/-- No producer that has one consumer only was settled before that consumer is worked on. -/
def Untouched (p : Problem α) (st : Stage α) (a : NodeId) : Prop :=
  a ∉ st.done → ∀ c ∈ (p.graph.node a).inputs, p.graph.isFork c.source = false →
    c.source ∉ st.done

theorem Visits.nil (st : Stage α) : p.Visits st [] st.done st :=
  ⟨.refl, rfl, by simp, fun _ hm => .inl hm⟩

/-- One visit after the other. -/
theorem Visits.cons {st st₁ st₂ : Stage α} {b : NodeId} {targets order₁ order₂ : List NodeId}
    (h₁ : p.Visits st [b] order₁ st₁) (h₂ : p.Visits st₁ targets order₂ st₂) :
    p.Visits st (b :: targets) order₂ st₂ := by
  refine ⟨h₁.steps.trans h₂.steps, h₂.done_eq, ?_, ?_⟩
  · intro t ht
    rcases List.mem_cons.1 ht with rfl | ht
    · exact h₂.steps.extends.done _ (h₁.reached t (List.mem_singleton.2 rfl))
    · exact h₂.reached t ht
  · intro m hm
    rcases h₂.only m hm with hm | ⟨t, ht, hreach⟩
    · rcases h₁.only m hm with hm | ⟨t, ht, hreach⟩
      · exact .inl hm
      · obtain rfl := List.mem_singleton.1 ht
        exact .inr ⟨_, List.mem_cons_self, hreach⟩
    · exact .inr ⟨t, List.mem_cons_of_mem _ ht, hreach⟩

/-- Once its producers are visited a node is due. -/
theorem Visits.due (hg : p.graph.WellFormed) {st st₁ : Stage α} {n : NodeId} {order : List NodeId}
    (h : p.Visits st ((p.graph.node n).inputs.map (·.source)) order st₁) (hn : n < p.graph.size)
    (hfresh : n ∉ st.done) : p.Due st₁ n := by
  refine ⟨?_, fun c hc => h.reached _ (List.mem_map_of_mem hc), hn⟩
  intro hdone
  rcases h.only n hdone with hdone | ⟨t, ht, hreach⟩
  · exact hfresh hdone
  · obtain ⟨c, hc, rfl⟩ := List.mem_map.1 ht
    exact hg.not_reaches_source hc hreach

/-- After its producers a node itself is visited. -/
theorem Visits.settle {st st₁ : Stage α} {n : NodeId} {order : List NodeId}
    (h : p.Visits st ((p.graph.node n).inputs.map (·.source)) order st₁) (hdue : p.Due st₁ n)
    {kept : List (Plan α)} {s : Search α}
    (hs : p.settle (p.graph.node n) (p.channelsAt st₁ n) st₁.search = (.ok kept, s)) :
    p.Visits st [n] (n :: order) (st₁.settle n kept s) := by
  refine ⟨h.steps.tail (.settle hdue hs), congrArg (n :: ·) h.done_eq, ?_, ?_⟩
  · intro t ht
    rw [List.mem_singleton.1 ht]
    exact List.mem_cons_self
  · intro m hm
    rcases List.mem_cons.1 hm with rfl | hm
    · exact .inr ⟨_, List.mem_singleton.2 rfl, Graph.Reaches.refl _ _⟩
    · rcases h.only m hm with hm | ⟨t, ht, hreach⟩
      · exact .inl hm
      · obtain ⟨c, hc, rfl⟩ := List.mem_map.1 ht
        exact .inr ⟨n, List.mem_singleton.2 rfl, hreach.trans (Graph.reaches_of_mem hc)⟩

/-- Visiting what feeds one input of a node leaves alone what feeds another input only. -/
theorem Visits.fresh (hg : p.graph.WellFormed) {st st₁ : Stage α} {n : NodeId}
    {order : List NodeId} {c d : Connection} (hc : c ∈ (p.graph.node n).inputs)
    (hd : d ∈ (p.graph.node n).inputs) (hne : d ≠ c) (h : p.Visits st [c.source] order st₁)
    (hfork : p.graph.isFork d.source = false) (hfresh : d.source ∉ st.done) :
    d.source ∉ st₁.done := by
  intro hdone
  rcases h.only _ hdone with hdone | ⟨t, ht, hreach⟩
  · exact hfresh hdone
  · obtain rfl := List.mem_singleton.1 ht
    rcases Relation.ReflTransGen.cases_head hreach with h | ⟨x, ⟨e, he, hed⟩, hx⟩
    · exact hne (Graph.eq_of_not_isFork hfork hd hc rfl h.symm)
    · obtain rfl := Graph.eq_of_not_isFork hfork hd he rfl hed
      have hnx : n = x := by
        rw [← hg.target_eq n d hd, hg.target_eq x d he]
      exact hg.not_reaches_source hc (hnx ▸ hx)

/-- Visiting what feeds one input of a node leaves alone what waits for another input. -/
theorem Visits.untouched (hg : p.graph.WellFormed) {st st' : Stage α} {b : NodeId}
    {order : List NodeId} (hst : p.Reachable st) (hv : p.Visits st [b] order st') {a : NodeId}
    (ha : p.Untouched st a)
    (hab : ∀ c ∈ (p.graph.node a).inputs, p.graph.isFork c.source = false → c.source ≠ b) :
    p.Untouched st' a := by
  have hst' := hst.steps hv.steps
  intro hnot c hc hfork hdone
  have hnot₀ : a ∉ st.done := fun h => hnot (hv.steps.extends.done a h)
  rcases hv.only _ hdone with h | ⟨t, ht, hreach⟩
  · exact ha hnot₀ c hc hfork h
  · obtain rfl := List.mem_singleton.1 ht
    rcases Relation.ReflTransGen.cases_head hreach with h | ⟨x, ⟨d, hd, hdc⟩, hx⟩
    · exact hab c hc hfork h
    · -- The only connection that leaves the producer leads to `a`.
      obtain rfl := Graph.eq_of_not_isFork hfork hc hd rfl hdc
      have hax : a = x := by
        rw [← hg.target_eq a c hc, hg.target_eq x c hd]
      rw [hax] at hnot
      exact hnot (hst'.done_of_reaches (hv.reached t (List.mem_singleton.2 rfl)) hx)

/-- Every way a search of some nodes can end: all are visited, or one on the way fails. -/
structure Ends (p : Problem α) (st : Stage α) (targets order : List NodeId) {β : Type}
    (value : Stage α → β) (r : Except Failure β × Search α) : Prop where
  ok : ∀ x s, r = (.ok x, s) →
    ∃ st', p.Visits st targets order st' ∧ st'.search = s ∧ x = value st'
  error : ∀ e s, r = (.error e, s) → ∃ st' m, p.Fails st' m e s ∧ m :: st'.done <:+ order

theorem Ends.of_ok {st st' : Stage α} {targets order : List NodeId} {β : Type}
    {value : Stage α → β} (h : p.Visits st targets order st') :
    p.Ends st targets order value (.ok (value st'), st'.search) := by
  refine ⟨?_, by simp⟩
  intro x s heq
  obtain ⟨hx, hs⟩ := Prod.mk.inj heq
  exact ⟨st', h, hs, (Except.ok.inj hx).symm⟩

theorem Ends.of_fails {st st' : Stage α} {targets order : List NodeId} {β : Type}
    {value : Stage α → β} {m : NodeId} {e : Failure} {s : Search α} (h : p.Fails st' m e s)
    (horder : m :: st'.done <:+ order) : p.Ends st targets order value (.error e, s) := by
  refine ⟨by simp, ?_⟩
  intro e' s' heq
  obtain ⟨he, rfl⟩ := Prod.mk.inj heq
  obtain rfl := Except.error.inj he
  exact ⟨st', m, h, horder⟩

/-- A search that works on a node has some of its connections left to follow. -/
structure Feeding (p : Problem α) (st : Stage α) (n : NodeId) (cs : List Connection) : Prop where
  nodup : cs.Nodup
  mem : ∀ c ∈ cs, c ∈ (p.graph.node n).inputs
  fresh : ∀ c ∈ cs, p.graph.isFork c.source = false → c.source ∉ st.done
  untouched : ∀ a, a ≠ n → p.graph.Reaches a n → p.Untouched st a

omit [Quantity α] in
/-- What reaches the next source was left alone. -/
theorem Feeding.untouched_source (hg : p.graph.WellFormed) {st : Stage α} {n : NodeId}
    {c : Connection} {cs : List Connection} (h : p.Feeding st n (c :: cs)) {a : NodeId}
    (ha : p.graph.Reaches a c.source) : p.Untouched st a := by
  have hcn := h.mem c List.mem_cons_self
  refine h.untouched a ?_ (ha.trans (Graph.reaches_of_mem hcn))
  rintro rfl
  exact hg.not_reaches_source hcn ha

/-- One connection after the other. -/
theorem Feeding.next (hg : p.graph.WellFormed) {st st₁ : Stage α} {n : NodeId}
    {order : List NodeId} {c : Connection} {cs : List Connection} (hst : p.Reachable st)
    (h : p.Feeding st n (c :: cs)) (hv : p.Visits st [c.source] order st₁) :
    p.Feeding st₁ n cs := by
  obtain ⟨hc, hnodup⟩ := List.nodup_cons.1 h.nodup
  have hcn := h.mem c List.mem_cons_self
  have hmem : ∀ d ∈ cs, d ∈ (p.graph.node n).inputs :=
    fun d hd => h.mem d (List.mem_cons_of_mem c hd)
  refine ⟨hnodup, hmem, ?_, ?_⟩
  · intro d hd hfork
    exact hv.fresh hg hcn (hmem d hd) (ne_of_mem_of_not_mem hd hc) hfork
      (h.fresh d (List.mem_cons_of_mem c hd) hfork)
  · intro a hne ha
    refine hv.untouched hg hst (h.untouched a hne ha) ?_
    intro d hd hfork heq
    obtain rfl := Graph.eq_of_not_isFork hfork hd hcn rfl heq.symm
    rw [← hg.target_eq a d hd, hg.target_eq n d hcn] at hne
    exact hne rfl

/-- If the search below every source ends in one of the two ways, so does the search below all
sources of a node. -/
theorem feed_ends (hg : p.graph.WellFormed)
    (candidatesOf : NodeId → Search α → Except Failure (List (Plan α)) × Search α)
    {visit : NodeId → List NodeId → List NodeId} (hvisit : ∀ m done, done <:+ visit m done)
    {n : NodeId}
    (hsource : ∀ (c : Connection) (st : Stage α), c ∈ (p.graph.node n).inputs → p.Reachable st →
      (p.graph.isFork c.source = false → c.source ∉ st.done) →
        (∀ a, p.graph.Reaches a c.source → p.Untouched st a) →
          p.Ends st [c.source] (visit c.source st.done) (fun st' => st'.kept c.source)
            (candidatesOf c.source st.search)) :
    ∀ {cs : List Connection} {st : Stage α}, p.Reachable st → p.Feeding st n cs →
      p.Ends st (cs.map (·.source)) (cs.foldl (fun done c => visit c.source done) st.done)
        (fun st' => cs.map fun c => p.channels c (st'.kept c.source))
        (p.feed candidatesOf cs st.search)
  | [], st, _, _ => Ends.of_ok (.nil st)
  | c :: cs, st, hst, h => by
    have hends := hsource c st (h.mem c List.mem_cons_self) hst (h.fresh c List.mem_cons_self)
      fun a ha => h.untouched_source hg ha
    unfold feed
    cases hcand : candidatesOf c.source st.search with
    | mk r s₁ =>
      cases r with
      | error e =>
        obtain ⟨st', m, hfails, horder⟩ := hends.error e s₁ hcand
        exact .of_fails hfails (horder.trans (Graph.suffix_foldl hvisit cs _))
      | ok producers =>
        obtain ⟨st₁, hv₁, rfl, rfl⟩ := hends.ok producers s₁ hcand
        have ih := feed_ends hg candidatesOf hvisit hsource (hst.steps hv₁.steps)
          (h.next hg hst hv₁)
        rw [hv₁.done_eq] at ih
        dsimp only
        cases hrest : p.feed candidatesOf cs st₁.search with
        | mk r s₂ =>
          cases r with
          | error e =>
            obtain ⟨st', m, hfails, horder⟩ := ih.error e s₂ hrest
            exact .of_fails hfails horder
          | ok rest =>
            obtain ⟨st₂, hv₂, rfl, rfl⟩ := ih.ok rest s₂ hrest
            have hdone := hv₁.reached c.source (List.mem_singleton.2 rfl)
            rw [← hv₂.steps.extends.kept _ hdone]
            exact .of_ok (hv₁.cons hv₂)

/-- The search below a node settles the node and what reaches it, or some node fails. -/
theorem candidatesWithin_ends (hg : p.graph.WellFormed) : ∀ (depth n : Nat) (st : Stage α),
    n < depth → n < p.graph.size → p.Reachable st →
      (p.graph.isFork n = false → n ∉ st.done) →
        (∀ a, p.graph.Reaches a n → p.Untouched st a) →
          p.Ends st [n] (p.graph.visitWithin depth n st.done) (fun st' => st'.kept n)
            (p.candidatesWithin depth n st.search)
  | 0, n, st, hdepth, _, _, _, _ => absurd hdepth (Nat.not_lt_zero n)
  | depth + 1, n, st, hdepth, hn, hst, hfresh, huntouched => by
    unfold candidatesWithin Graph.visitWithin
    have hfind := hst.find?_forks hg n
    by_cases hdone : n ∈ st.done
    · have hfork : p.graph.isFork n = true := by
        by_contra h
        exact hfresh (by simpa using h) hdone
      rw [if_pos ⟨hdone, hfork⟩] at hfind
      rw [hfind, if_pos ⟨hdone, hfork⟩]
      exact .of_ok ⟨.refl, rfl, by simpa using hdone, fun m hm => .inl hm⟩
    · rw [if_neg (fun h => hdone h.1)] at hfind
      rw [hfind, if_neg (fun h => hdone h.1)]
      have hfeeding : p.Feeding st n (p.graph.node n).inputs :=
        ⟨hg.nodup_inputs n, fun c hc => hc, huntouched n (Graph.Reaches.refl _ n) hdone,
          fun a _ ha => huntouched a ha⟩
      have hfeed := feed_ends hg (p.candidatesWithin depth) (p.graph.suffix_visitWithin depth)
        (by
          intro c st hc hst hfresh huntouched
          have hlt := hg.source_lt n c hc
          exact candidatesWithin_ends hg depth c.source st
            (Nat.lt_of_lt_of_le hlt (Nat.le_of_lt_succ hdepth)) (hg.source_lt_size hc) hst
            hfresh huntouched) hst hfeeding
      dsimp only
      cases hinputs : p.feed (p.candidatesWithin depth) (p.graph.node n).inputs st.search with
      | mk r s₁ =>
        cases r with
        | error e =>
          obtain ⟨st', m, hfails, horder⟩ := hfeed.error e s₁ hinputs
          exact .of_fails hfails (horder.trans (List.suffix_cons n _))
        | ok inputs =>
          obtain ⟨st₁, hv, rfl, rfl⟩ := hfeed.ok inputs s₁ hinputs
          have hdue := hv.due hg hn hdone
          refine ⟨?_, fun e s h =>
            ⟨st₁, n, ⟨hst.steps hv.steps, hdue, h⟩, hv.done_eq ▸ List.suffix_rfl⟩⟩
          intro x s h
          refine ⟨st₁.settle n x s, hv.settle hdue h, rfl, ?_⟩
          rw [Stage.kept_settle_self]

/-- A run from the root settles every node, or some node fails. -/
theorem candidates_root (hg : p.graph.WellFormed) :
    p.Ends {} [p.graph.root] p.graph.schedule (fun st => st.kept p.graph.root)
      (p.candidates p.graph.root {}) :=
  candidatesWithin_ends hg p.graph.size p.graph.root {} hg.root_lt hg.root_lt .refl
    (fun _ => by simp) (fun a _ _ c _ _ => by simp)

/-- A search that ends well got to a stage at which the root is settled. -/
theorem exists_stage_of_ok (hg : p.graph.WellFormed) {plans : List (Plan α)} {s : Search α}
    (h : p.candidates p.graph.root {} = (.ok plans, s)) : ∃ st, p.Reachable st ∧
      p.graph.root ∈ st.done ∧ st.kept p.graph.root = plans ∧ st.search = s := by
  obtain ⟨st, hv, hs, hplans⟩ := (candidates_root hg).ok plans s h
  exact ⟨st, hv.steps, hv.reached _ (List.mem_singleton.2 rfl), hplans.symm, hs⟩

/-- A search finds candidates for the root, or some node failed on the way. -/
theorem candidates_ok_or_fails (hg : p.graph.WellFormed) :
    (∃ plans s, p.candidates p.graph.root {} = (.ok plans, s)) ∨
      ∃ st n e s, p.candidates p.graph.root {} = (.error e, s) ∧ p.Fails st n e s ∧
        n :: st.done <:+ p.graph.schedule := by
  have hends := candidates_root (p := p) hg
  cases hcand : p.candidates p.graph.root {} with
  | mk r s =>
    cases r with
    | ok plans => exact .inl ⟨plans, s, rfl⟩
    | error e =>
      obtain ⟨st, n, hfails, horder⟩ := hends.error e s hcand
      exact .inr ⟨st, n, e, s, rfl, hfails, horder⟩

/-! ## §5 The order determines the stage -/

/-- Whatever was settled was due and settled at a stage of its own, and the run went on from
there. -/
theorem Reachable.exists_before {st : Stage α} (h : p.Reachable st) {n : NodeId}
    {done : List NodeId} (hn : n :: done <:+ st.done) : ∃ st₀ kept s, p.Reachable st₀ ∧
      st₀.done = done ∧ p.Due st₀ n ∧
        p.settle (p.graph.node n) (p.channelsAt st₀ n) st₀.search = (.ok kept, s) ∧
          p.Steps (st₀.settle n kept s) st := by
  refine Reachable.induct (P := fun st => n :: done <:+ st.done → ∃ st₀ kept s, p.Reachable st₀ ∧
    st₀.done = done ∧ p.Due st₀ n ∧
      p.settle (p.graph.node n) (p.channelsAt st₀ n) st₀.search = (.ok kept, s) ∧
        p.Steps (st₀.settle n kept s) st) ?_ ?_ h hn
  · intro hnil
    simp at hnil
  · intro st m kept s hst ih hdue hs hn
    rcases List.suffix_cons_iff.1 hn with heq | hsuffix
    · obtain ⟨rfl, rfl⟩ := List.cons.inj heq
      exact ⟨st, kept, s, hst, rfl, hdue, hs, .refl⟩
    · obtain ⟨st₀, kept₀, s₀, hst₀, hdone, hdue₀, hs₀, hsteps⟩ := ih hsuffix
      exact ⟨st₀, kept₀, s₀, hst₀, hdone, hdue₀, hs₀, hsteps.tail (.settle hdue hs)⟩

/-- Two stages at which the same nodes were settled in the same order are the same. -/
theorem Reachable.eq_of_done_eq {st : Stage α} (h : p.Reachable st) :
    ∀ {st' : Stage α}, p.Reachable st' → st'.done = st.done → st' = st := by
  refine Reachable.induct (P := fun st => ∀ {st' : Stage α}, p.Reachable st' →
    st'.done = st.done → st' = st) ?_ ?_ h
  · intro st' h' hdone
    cases Relation.ReflTransGen.cases_tail h' with
    | inl heq => exact heq.symm ▸ rfl
    | inr hlast =>
      obtain ⟨st₁, -, hstep⟩ := hlast
      cases hstep with
      | settle hdue hs => simp [Stage.settle] at hdone
  · intro st n kept s _ ih hdue hs st' h' hdone
    cases Relation.ReflTransGen.cases_tail h' with
    | inl heq =>
      rw [heq] at hdone
      simp [Stage.settle] at hdone
    | inr hlast =>
      obtain ⟨st₁, hst₁, hstep⟩ := hlast
      cases hstep with
      | settle hdue' hs' =>
        obtain ⟨rfl, hdone₁⟩ := List.cons.inj hdone
        obtain rfl := ih hst₁ hdone₁
        rw [hs] at hs'
        obtain ⟨hk, rfl⟩ := Prod.mk.inj hs'
        obtain rfl := Except.ok.inj hk
        rfl

end Problem

end FlowPlanner
