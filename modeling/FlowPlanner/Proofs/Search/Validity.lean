/-
FlowPlanner.Proofs.Search.Validity — drivers get their data as they need it.

A reduce and a co-group work on records with equal keys, so these have to lie on
one instance and next to each other; a join and a cross have to see every pair
that they put together, so one side is copied or both are partitioned alike. What
a node needs of its inputs is `Node.Supplied`, and every alternative of the node
has it (`Node.supplied_of_mem_alternatives`), whatever producers, requests and
changes of parallelism the channels come from. Only a hint can take it away.
-/
import FlowPlanner.Proofs.Search.Feasibility

namespace FlowPlanner

variable {α : Type}

/-! ## §1 What nodes need -/

/-- Records equal on these columns stand next to each other: they are declared to, or the data is
sorted with exactly these columns in front. -/
def Arrangement.Groups (a : Arrangement) (fields : FieldSet) : Prop :=
  a.grouped = some fields ∨ ∃ front, front <+: a.ordering ∧ FieldSet.ofList front = fields

/-- Records equal on the keys lie on one instance: the data is hashed on some of the keys, on one at
least. -/
def Placement.Gathers (placement : Placement) (keys : List Nat) : Prop :=
  ∃ fields, placement = .hashed fields ∧ (∃ f, f ∈ fields) ∧ ∀ f ∈ fields, f ∈ keys

/-- The data arrives grouped on the keys, or it is sorted on arrival, by the keys as they are
listed. -/
def Channel.IsGrouped (c : Channel (Plan α)) (keys : List Nat) : Prop :=
  c.arrangement.Groups (.ofList keys) ∨ c.work = .sort keys ∧ c.arrangement = .sorted keys

/-- Records with equal keys of two inputs lie on one instance: the inputs are partitioned alike, or
each is hashed on all its keys. -/
def Placement.Meets (a b : Placement) (firstKeys secondKeys : List Nat) : Prop :=
  isCoPartitioned a b firstKeys secondKeys = true ∨
    a = .hashed (.ofList firstKeys) ∧ b = .hashed (.ofList secondKeys)

namespace Node

/-- What a reduce needs of its input; where the data lies a hint may decide. -/
structure ReduceSupplied (n : Node) (c : Channel (Plan α)) : Prop where
  gathered : c.forced = false → c.placement.Gathers (n.keyList 0)
  grouped : c.IsGrouped (n.keyList 0)

/-- What a join needs of its inputs; where the data lies hints may decide. -/
structure JoinSupplied (n : Node) (driver : Driver) (a b : Channel (Plan α)) : Prop where
  meet : a.forced = false → b.forced = false →
    Xor (a.placement = .replicated) (b.placement = .replicated) ∨
      a.placement.Meets b.placement (n.keyList 0) (n.keyList 1)
  sorted : driver = .sortMerge →
    n.keyList 0 <+: a.arrangement.ordering ∧ n.keyList 1 <+: b.arrangement.ordering

/-- What a cross needs of its inputs: the outer side is copied, unless hints decide for both. -/
structure CrossSupplied (driver : Driver) (a b : Channel (Plan α)) : Prop where
  first : driver = .nestedLoopBlockedOuterFirst →
    a.placement = .replicated ∨ a.forced = true ∧ b.forced = true
  second : driver = .nestedLoopBlockedOuterSecond →
    b.placement = .replicated ∨ a.forced = true ∧ b.forced = true
  outer : driver = .nestedLoopBlockedOuterFirst ∨ driver = .nestedLoopBlockedOuterSecond

/-- What a co-group needs of its inputs; where the data lies hints may decide. -/
structure CoGroupSupplied (n : Node) (a b : Channel (Plan α)) : Prop where
  meet : a.forced = false → b.forced = false →
    a.placement.Meets b.placement (n.keyList 0) (n.keyList 1)
  first : a.IsGrouped (n.keyList 0)
  second : b.IsGrouped (n.keyList 1)

/-- A driver runs on inputs that are as the node needs them. -/
def Supplied (n : Node) (driver : Driver) (inputs : List (Channel (Plan α))) : Prop :=
  match n.kind with
  | .operator .reduce => ∃ c, inputs = [c] ∧ n.ReduceSupplied c
  | .operator .equiJoin => ∃ a b, inputs = [a, b] ∧ n.JoinSupplied driver a b
  | .operator .cross => ∃ a b, inputs = [a, b] ∧ CrossSupplied driver a b
  | .operator .coGroup => ∃ a b, inputs = [a, b] ∧ n.CoGroupSupplied a b
  | _ => True

end Node

/-! ## §2 Channels made fit -/

theorem Arrangement.groups_of_isGroupedOn {a : Arrangement} {fields : FieldSet}
    (hne : fields.isEmpty = false) (h : a.isGroupedOn fields = true) : a.Groups fields := by
  unfold isGroupedOn at h
  simp only [hne, Bool.false_or, Bool.or_eq_true, beq_iff_eq, Bool.and_eq_true] at h
  rcases h with h | ⟨-, h⟩
  · exact .inl h
  · exact .inr ⟨_, List.take_prefix _ _, h⟩

theorem Placement.gathers_of_isMetBy {placement : Placement} {keys : List Nat}
    (h : (Placement.hashed (.ofList keys)).isMetBy placement = true) : placement.Gathers keys := by
  cases placement with
  | any => simp at h
  | replicated => simp at h
  | hashed fields =>
    rw [hashed_isMetBy_hashed, Bool.and_eq_true, Bool.not_eq_true', FieldSet.subset_iff] at h
    obtain ⟨hne, hsubset⟩ := h
    refine ⟨fields, rfl, ?_, fun f hf => FieldSet.mem_ofList.1 (hsubset f hf)⟩
    by_contra hnone
    push Not at hnone
    rw [FieldSet.isEmpty_iff.2 hnone] at hne
    simp at hne

theorem Placement.isReplicated_iff {placement : Placement} :
    placement.isReplicated = true ↔ placement = .replicated := by
  cases placement <;> simp [isReplicated]

/-- Exactly one of two placements is a full copy. -/
theorem Placement.bne_isReplicated_iff {a b : Placement} :
    (a.isReplicated != b.isReplicated) = true ↔ Xor (a = .replicated) (b = .replicated) := by
  cases a <;> cases b <;> simp [isReplicated, Xor]

namespace Channel

@[simp] theorem placement_groupedOn (c : Channel (Plan α)) (keys : List Nat) :
    (c.groupedOn keys).placement = c.placement := by
  unfold groupedOn
  split <;> rfl

@[simp] theorem placement_sortedOn (c : Channel (Plan α)) (keys : List Nat) :
    (c.sortedOn keys).placement = c.placement := by
  unfold sortedOn
  split <;> rfl

@[simp] theorem forced_groupedOn (c : Channel (Plan α)) (keys : List Nat) :
    (c.groupedOn keys).forced = c.forced := forced_eq_of_route (Becomes.groupedOn c keys).route

@[simp] theorem forced_sortedOn (c : Channel (Plan α)) (keys : List Nat) :
    (c.sortedOn keys).forced = c.forced := forced_eq_of_route (Becomes.sortedOn c keys).route

theorem isGrouped_groupedOn (c : Channel (Plan α)) {keys : List Nat}
    (hkeys : (FieldSet.ofList keys).isEmpty = false) : (c.groupedOn keys).IsGrouped keys := by
  unfold groupedOn
  split
  · rename_i h
    exact .inl (Arrangement.groups_of_isGroupedOn hkeys h)
  · exact .inr ⟨rfl, rfl⟩

theorem ordering_sortedOn (c : Channel (Plan α)) (keys : List Nat) :
    keys <+: (c.sortedOn keys).arrangement.ordering := by
  unfold sortedOn
  split
  · rename_i h
    exact Arrangement.isSortedOn_iff.1 h
  · exact List.prefix_refl keys

theorem placement_repartition {c : Channel (Plan α)} (h : c.forced = false) (keys : List Nat) :
    (c.repartition keys).placement = .hashed (.ofList keys) := by
  unfold repartition
  rw [h, Bool.false_or]
  split
  · rename_i heq
    exact beq_iff_eq.1 heq
  · rfl

end Channel

/-- Two inputs that no hint decides are partitioned alike afterwards. -/
theorem meets_coPartition {a b : Channel (Plan α)} {firstKeys secondKeys : List Nat}
    (ha : (coPartition a b firstKeys secondKeys).1.forced = false)
    (hb : (coPartition a b firstKeys secondKeys).2.forced = false) :
    (coPartition a b firstKeys secondKeys).1.placement.Meets
      (coPartition a b firstKeys secondKeys).2.placement firstKeys secondKeys := by
  obtain ⟨hbecomes, hbecomes'⟩ := Channel.Becomes.coPartition a b firstKeys secondKeys
  rw [Channel.forced_eq_of_route hbecomes.route] at ha
  rw [Channel.forced_eq_of_route hbecomes'.route] at hb
  unfold coPartition
  split
  · rename_i h
    exact .inl h
  · exact .inr ⟨Channel.placement_repartition ha _, Channel.placement_repartition hb _⟩

/-! ## §3 Alternatives -/

namespace Node

variable {n : Node} {a b c : Channel (Plan α)} {alt : Alternative α}

theorem exists_reduceSupplied (hkeys : n.keyList 0 ≠ []) (h : alt ∈ n.reduceAlternatives c) :
    ∃ d, alt.inputs = [d] ∧ n.ReduceSupplied d := by
  unfold reduceAlternatives at h
  dsimp only at h
  split at h
  · simp at h
  · rename_i hfit
    obtain rfl := List.mem_singleton.1 h
    refine ⟨_, rfl, ?_, c.isGrouped_groupedOn (isEmpty_keyFields hkeys)⟩
    intro hforced
    rw [Channel.forced_groupedOn] at hforced
    rw [Channel.placement_groupedOn]
    refine Placement.gathers_of_isMetBy ?_
    simpa [hforced] using hfit

/-- Two replicated sides are turned down, one is as good as partitioning both alike. -/
theorem exists_joinSupplied (h : alt ∈ n.joinAlternatives a b) :
    ∃ x y, alt.inputs = [x, y] ∧ n.JoinSupplied alt.driver x y := by
  have hmeet : (n.joinPair a b).1.forced = false → (n.joinPair a b).2.forced = false →
      Xor ((n.joinPair a b).1.placement = .replicated)
          ((n.joinPair a b).2.placement = .replicated) ∨
        (n.joinPair a b).1.placement.Meets (n.joinPair a b).2.placement (n.keyList 0)
          (n.keyList 1) := by
    unfold joinPair
    split
    · rename_i hone
      exact fun _ _ => .inl (Placement.bne_isReplicated_iff.1 hone)
    · exact fun ha hb => .inr (meets_coPartition ha hb)
  obtain ⟨-, hinputs⟩ := spec_of_mem_joinAlternatives h
  by_cases hmerge : alt.driver = .sortMerge
  · rw [if_pos hmerge] at hinputs
    exact ⟨_, _, hinputs, by simpa using hmeet,
      fun _ => ⟨Channel.ordering_sortedOn _ _, Channel.ordering_sortedOn _ _⟩⟩
  · rw [if_neg hmerge] at hinputs
    exact ⟨_, _, hinputs, hmeet, fun h => absurd h hmerge⟩

theorem coGroupSupplied (hfirst : n.keyList 0 ≠ []) (hsecond : n.keyList 1 ≠ []) :
    ∃ x y, (n.coGroupAlternative a b).inputs = [x, y] ∧ n.CoGroupSupplied x y := by
  refine ⟨_, _, rfl, ?_, Channel.isGrouped_groupedOn _ (isEmpty_keyFields hfirst),
    Channel.isGrouped_groupedOn _ (isEmpty_keyFields hsecond)⟩
  rw [Channel.forced_groupedOn, Channel.forced_groupedOn, Channel.placement_groupedOn,
    Channel.placement_groupedOn]
  exact meets_coPartition

variable [Quantity α] {sizeOf : NodeId → Option α} {t : List (Channel (Plan α))}

theorem crossSupplied (n : Node) (sizeOf : NodeId → Option α) (a b : Channel (Plan α)) :
    ∃ x y, (n.crossAlternative sizeOf a b).inputs = [x, y] ∧
      CrossSupplied (n.crossAlternative sizeOf a b).driver x y := by
  unfold crossAlternative
  split
  · rename_i ha
    exact ⟨a, b, rfl, fun _ => .inl (Placement.isReplicated_iff.1 ha), by simp, by simp⟩
  · split
    · rename_i hb
      exact ⟨a, b, rfl, by simp, fun _ => .inl (Placement.isReplicated_iff.1 hb), by simp⟩
    · split
      · rename_i hforced
        have hboth : a.forced = true ∧ b.forced = true := by simpa using hforced
        split
        · exact ⟨a, b, rfl, fun _ => .inr hboth, fun _ => .inr hboth, by simp⟩
        · exact ⟨a, b, rfl, fun _ => .inr hboth, fun _ => .inr hboth, by simp⟩
      · split
        · exact ⟨a, _, rfl, by simp, fun _ => .inl rfl, by simp⟩
        · exact ⟨_, b, rfl, fun _ => .inl rfl, by simp, by simp⟩

/-- Every alternative of a node gives the driver what the node needs. -/
theorem supplied_of_mem_alternatives
    (hn : n.kind.Accepts n.keys (n.inputs.map (·.position))) (h : alt ∈ n.alternatives sizeOf t) :
    n.Supplied alt.driver alt.inputs := by
  have hkeys : ∀ kind, n.kind = .operator kind → kind.requiresKeys = true →
      ∀ i < kind.arity, n.keyList i ≠ [] := by
    intro kind hkind
    rw [hkind] at hn
    exact hn.2.2
  unfold alternatives at h
  split at h
  -- The kinds that need nothing.
  all_goals try (rename_i hkind; rw [Supplied, hkind]; trivial)
  · rename_i hkind
    rw [Supplied, hkind]
    exact exists_reduceSupplied (hkeys _ hkind rfl 0 (by decide)) h
  · rename_i hkind
    rw [Supplied, hkind]
    exact exists_joinSupplied h
  · rename_i hkind
    rw [Supplied, hkind]
    obtain rfl := List.mem_singleton.1 h
    exact n.crossSupplied sizeOf _ _
  · rename_i hkind
    rw [Supplied, hkind]
    obtain rfl := List.mem_singleton.1 h
    exact coGroupSupplied (hkeys _ hkind rfl 0 (by decide)) (hkeys _ hkind rfl 1 (by decide))
  · simp at h

end Node

/-! ## §4 Searches -/

namespace Problem

variable [Quantity α] {p : Problem α}

theorem Reachable.supplied (hg : p.graph.WellFormed) {st : Stage α} (hst : p.Reachable st)
    {q : Plan α} (hq : q ∈ st.search.made) :
    (p.graph.node q.node).Supplied q.driver q.inputs := by
  have h := hst.consistent hg
  obtain ⟨t, choices, hder, -⟩ := (h.derived q hq).exists_derives
  exact Node.supplied_of_mem_alternatives
    (hg.accepted q.node (hst.lt_size (h.node_done q hq))) hder.alt_mem

end Problem

/-- However a search ends, every plan that it made runs a driver on inputs that are as its node
needs them; its channels are forced just where a hint decides, and what holds of their data is what
their strategies establish. -/
theorem made_plans_supplied [Quantity α] {o : Optimizer α} {job : Job} {p : Problem α}
    (h : o.prepare job = .ok p) (clock : Nat → Nat) :
    ∀ q ∈ ({ p with clock }.candidates p.graph.root {}).2.made,
      (p.graph.node q.node).Supplied q.driver q.inputs ∧
        List.Forall₂ p.Carries q.inputs (p.graph.node q.node).inputs := by
  intro q hq
  obtain ⟨hp, st, hst, hmade⟩ := Optimizer.exists_stage h clock
  rw [hmade] at hq
  exact ⟨hst.supplied hp.wellFormed hq,
    (hst.carries hp.wellFormed hq).imp fun _ _ hc => ⟨hc.route, hc.ship, hc.lawful⟩⟩

/-- A join of two sources, grouped, crossed with one of the sources and co-grouped with the
other. -/
def keyedOperators : Job where
  operators :=
    [{ id := 1, name := "a", kind := .source { partitionedOn := some [0] } },
     { id := 2, name := "b", kind := .source {} },
     { id := 3, name := "join", kind := .equiJoin, inputs := [[1], [2]], keys := [[0], [0]]
       contract := .sameKeyFirst },
     { id := 4, name := "agg", kind := .reduce, inputs := [[3]], keys := [[0, 1]] },
     { id := 5, name := "pairs", kind := .cross, inputs := [[4], [2]] },
     { id := 6, name := "groups", kind := .coGroup, inputs := [[5], [1]], keys := [[0], [0]] },
     { id := 7, name := "out", kind := .sink, inputs := [[6]] }]

/-- Of each of these kinds there is a plan, and no hint decides anything. -/
theorem made_plans_supplied_keyedOperators : ∃ p,
    Optimizer.ofDefaults.prepare keyedOperators = .ok p ∧
      ∀ kind ∈ ["reduce", "match", "cross", "cogroup"],
        ∃ q ∈ (p.candidates p.graph.root {}).2.made,
          (p.graph.node q.node).kind.name = kind ∧
            (p.graph.node q.node).Supplied q.driver q.inputs ∧
              ∀ ch ∈ q.inputs, ch.forced = false := by
  obtain ⟨p, hprepare, hcheck⟩ := exists_ok_of_any
    (r := Optimizer.ofDefaults.prepare keyedOperators)
    (f := fun p => ["reduce", "match", "cross", "cogroup"].all fun kind =>
      (List.range p.graph.size).any fun n => (p.graph.node n).kind.name == kind &&
        (p.graph.node n).inputs.all fun c => c.forcedShip.isNone) (by decide +kernel)
  have hp := Optimizer.prepared hprepare
  have hconfig := Optimizer.config_eq hprepare
  refine ⟨p, hprepare, ?_⟩
  intro kind hkind
  simp only [List.all_eq_true, List.any_eq_true, List.mem_range, Bool.and_eq_true, beq_iff_eq,
    Option.isNone_iff_eq_none] at hcheck
  obtain ⟨n, hn, hname, hunforced⟩ := hcheck kind hkind
  obtain ⟨q, hq, rfl⟩ := Problem.exists_made_of_unlimited hp (by rw [hconfig]; rfl)
    (by rw [hconfig]; rfl) hn
  obtain ⟨hsupplied, hcarries⟩ := made_plans_supplied hprepare p.clock q hq
  refine ⟨q, hq, hname, hsupplied, ?_⟩
  intro ch hch
  obtain ⟨c, hc, hcarry⟩ := exists_of_forall₂_left hcarries hch
  rw [hcarry.forced, hunforced c hc]
  rfl

end FlowPlanner
