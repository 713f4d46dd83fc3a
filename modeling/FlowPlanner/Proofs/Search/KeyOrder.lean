/-
FlowPlanner.Proofs.Search.KeyOrder — in which order the inputs of a co-group are sorted.

A co-group asks of each input, on its own, that it is grouped on the keys of its side.
Plans never declare a grouping, so each input is sorted with its key columns in front, in
an order of its own: one that a request or the operator chose, or one kept from above
(`Problem.Reachable.grouped_eq_none`, `Channel.perm_take_groupedOn`). One pass over both
inputs needs more, the same order of the key positions on both sides (`SortedAlike`). There
is one exactly if the key positions stand in the two orders alike (`sortedAlike_iff`).
-/
import FlowPlanner.Proofs.Job.Acceptance
import FlowPlanner.Proofs.Search.Hints
import FlowPlanner.Proofs.Search.Over
import Mathlib.Data.List.Perm.Subperm

namespace FlowPlanner

variable {α : Type}

/-! ## §1 Keys in the order of their positions -/

/-- The keys that stand at some positions. -/
def keysAt (keys positions : List Nat) : List Nat := positions.filterMap (keys[·]?)

/-- The positions of the keys in the order in which data is sorted by them. -/
def keyPositions (keys ordering : List Nat) : List Nat :=
  (ordering.take keys.length).map (keys.idxOf ·)

/-- Two inputs are sorted with the keys of their sides in front, put in order by one permutation of
the key positions. -/
def SortedAlike (firstKeys secondKeys : List Nat) (a b : Arrangement) : Prop :=
  ∃ positions : List Nat, positions.Perm (List.range firstKeys.length) ∧
    keysAt firstKeys positions <+: a.ordering ∧ keysAt secondKeys positions <+: b.ordering

variable {keys ordering positions : List Nat}

theorem keysAt_range (keys : List Nat) : keysAt keys (List.range keys.length) = keys := by
  unfold keysAt
  rw [filterMap_getElem?_range, List.take_length]

theorem perm_keysAt (h : positions.Perm (List.range keys.length)) :
    (keysAt keys positions).Perm keys := by
  have hperm : (keysAt keys positions).Perm (keysAt keys (List.range keys.length)) := h.filterMap _
  rwa [keysAt_range] at hperm

/-- Where keys stand that stand at some positions. -/
theorem map_idxOf_keysAt (hkeys : keys.Nodup) (h : positions.Perm (List.range keys.length)) :
    (keysAt keys positions).map (keys.idxOf ·) = positions := by
  have hpositions : ∀ i ∈ positions, (keys[i]?).map (keys.idxOf ·) = some i := by
    intro i hi
    have hlt : i < keys.length := List.mem_range.1 (h.mem_iff.1 hi)
    rw [List.getElem?_eq_getElem hlt, Option.map_some, hkeys.idxOf_getElem i hlt]
  unfold keysAt
  rw [List.map_filterMap, List.filterMap_congr hpositions, List.filterMap_some]

theorem map_idxOf_self (hkeys : keys.Nodup) :
    keys.map (keys.idxOf ·) = List.range keys.length := by
  have hrange := map_idxOf_keysAt hkeys (List.Perm.refl (List.range keys.length))
  rwa [keysAt_range] at hrange

/-- Keys are read back from where they stand. -/
theorem keysAt_map_idxOf {front : List Nat} (h : ∀ f ∈ front, f ∈ keys) :
    keysAt keys (front.map (keys.idxOf ·)) = front := by
  have hfront : ∀ f ∈ front, keys[keys.idxOf f]? = some f := by
    intro f hf
    have hlt := List.idxOf_lt_length_of_mem (h f hf)
    rw [List.getElem?_eq_getElem hlt, List.getElem_idxOf hlt]
  unfold keysAt
  rw [List.filterMap_map]
  exact (List.filterMap_congr hfront).trans List.filterMap_some

/-- Only in one order of their positions the keys are the columns in front. -/
theorem keysAt_isPrefix_iff (hkeys : keys.Nodup)
    (hfront : (ordering.take keys.length).Perm keys)
    (hpositions : positions.Perm (List.range keys.length)) :
    keysAt keys positions <+: ordering ↔ positions = keyPositions keys ordering := by
  have hlength : (keysAt keys positions).length = keys.length := (perm_keysAt hpositions).length_eq
  rw [List.prefix_iff_eq_take, hlength]
  constructor
  · intro h
    unfold keyPositions
    rw [← h, map_idxOf_keysAt hkeys hpositions]
  · rintro rfl
    exact keysAt_map_idxOf fun f hf => hfront.mem_iff.1 hf

theorem perm_keyPositions (hkeys : keys.Nodup) (hfront : (ordering.take keys.length).Perm keys) :
    (keyPositions keys ordering).Perm (List.range keys.length) := by
  have hperm : (keyPositions keys ordering).Perm (keys.map (keys.idxOf ·)) := hfront.map _
  rwa [map_idxOf_self hkeys] at hperm

theorem keyPositions_self (hkeys : keys.Nodup) :
    keyPositions keys keys = List.range keys.length := by
  unfold keyPositions
  rw [List.take_length, map_idxOf_self hkeys]

/-- Inputs that are sorted by the keys of their sides in whatever order are sorted alike exactly if
the key positions stand in both orders alike. -/
theorem sortedAlike_iff {firstKeys secondKeys : List Nat} {a b : Arrangement}
    (hwidth : firstKeys.length = secondKeys.length) (hfirst : firstKeys.Nodup)
    (hsecond : secondKeys.Nodup) (ha : (a.ordering.take firstKeys.length).Perm firstKeys)
    (hb : (b.ordering.take secondKeys.length).Perm secondKeys) :
    SortedAlike firstKeys secondKeys a b ↔
      keyPositions firstKeys a.ordering = keyPositions secondKeys b.ordering := by
  constructor
  · rintro ⟨positions, hpositions, hpa, hpb⟩
    rw [keysAt_isPrefix_iff hfirst ha hpositions] at hpa
    rw [keysAt_isPrefix_iff hsecond hb (hwidth ▸ hpositions)] at hpb
    rw [← hpa, ← hpb]
  · intro heq
    have hpositions := perm_keyPositions hfirst ha
    refine ⟨_, hpositions, (keysAt_isPrefix_iff hfirst ha hpositions).2 rfl, ?_⟩
    exact (keysAt_isPrefix_iff hsecond hb (hwidth ▸ hpositions)).2 heq

/-! ## §2 Data grouped by a sort -/

theorem FieldSet.perm_toList_ofList (h : keys.Nodup) : (FieldSet.ofList keys).toList.Perm keys := by
  have hnodup : (FieldSet.ofList keys).toList.Nodup :=
    (FieldSet.ofList keys).ascending.imp fun hlt => Nat.ne_of_lt hlt
  exact (List.perm_ext_iff_of_nodup hnodup h).2 fun _ => mem_ofList

/-- Data that is grouped on keys and not declared so is sorted with them in front. -/
theorem Arrangement.perm_take_of_isGroupedOn {a : Arrangement} (hkeys : keys.Nodup)
    (hgrouped : a.grouped = none) (h : a.isGroupedOn (.ofList keys) = true) :
    (a.ordering.take keys.length).Perm keys := by
  have hperm := FieldSet.perm_toList_ofList hkeys
  have hsize : (FieldSet.ofList keys).size = keys.length := hperm.length_eq
  unfold isGroupedOn at h
  simp only [hgrouped, hsize, Bool.or_eq_true, Bool.and_eq_true, beq_iff_eq, decide_eq_true_eq] at h
  rcases h with (hempty | hdeclared) | ⟨hlength, hset⟩
  · have hnil : (FieldSet.ofList keys).toList = [] := List.isEmpty_iff.1 hempty
    rw [hnil] at hperm
    obtain rfl := hperm.nil_eq
    exact .refl _
  · simp at hdeclared
  · have hsubset : keys ⊆ a.ordering.take keys.length := by
      intro f hf
      rw [← FieldSet.mem_ofList, hset, FieldSet.mem_ofList]
      exact hf
    refine ((List.subperm_of_subset hkeys hsubset).perm_of_length_le ?_).symm
    exact List.length_take_le _ _

namespace Channel

theorem isGroupedOn_groupedOn (c : Channel (Plan α)) (hkeys : keys.Nodup) :
    (c.groupedOn keys).arrangement.isGroupedOn (.ofList keys) = true := by
  unfold groupedOn
  split
  · rename_i h
    exact h
  · have hsize : (FieldSet.ofList keys).size = keys.length :=
      (FieldSet.perm_toList_ofList hkeys).length_eq
    simp [withLocal, Arrangement.sorted, Arrangement.isGroupedOn, hsize]

/-- A channel from a plan that declares no grouping declares none. -/
theorem Lawful.grouped_eq_none {c : Channel (Plan α)} (hc : c.Lawful)
    (h : c.source.arrangement.grouped = none) : c.arrangement.grouped = none := by
  have hshipped : (shippedArrangement c.source c.rescaled c.ship).grouped = none := by
    unfold shippedArrangement
    split
    · split
      · rfl
      · exact h
    · rfl
  rw [hc.arrangement]
  split
  · exact hshipped
  · rfl

end Channel

namespace Node

variable {n : Node} {alt : Alternative α}

theorem grouped_contractOutput {inputs : List (Channel (Plan α))}
    (h : ∀ c ∈ inputs, c.arrangement.grouped = none) (keepOrder : Bool) :
    (n.contractOutput inputs keepOrder).2.grouped = none := by
  unfold contractOutput
  split
  · rfl
  · rename_i c hc
    have hkept := h c (List.mem_of_getElem? hc)
    dsimp only
    split
    · unfold outputThrough
      split
      · dsimp only
        split
        · exact hkept
        · rfl
      · rfl
    · rfl

/-- No operator declares a grouping of its own. -/
theorem grouped_output (h : ∀ c ∈ alt.inputs, c.arrangement.grouped = none) :
    (n.output alt).2.grouped = none := by
  have hcontract := grouped_contractOutput (n := n) h
  unfold output
  split
  · split <;> rfl
  · split
    · rename_i c cs hinputs
      exact h c (by rw [hinputs]; exact List.mem_cons_self)
    · rfl
  all_goals first | exact hcontract _ | rfl

variable [Quantity α] {sizeOf : NodeId → Option α} {t : List (Channel (Plan α))}

/-- Only a co-group runs by grouping both sides. -/
theorem inputs_of_sortedCoGroup (h : alt ∈ n.alternatives sizeOf t)
    (hdriver : alt.driver = .sortedCoGroup) : n.kind = .operator .coGroup ∧
      ∃ a b : Channel (Plan α), alt.inputs = [a.groupedOn (n.keyList 0), b.groupedOn (n.keyList 1)] := by
  unfold alternatives at h
  split at h
  all_goals try (obtain rfl := List.mem_singleton.1 h; simp at hdriver)
  · unfold reduceAlternatives at h
    dsimp only at h
    split at h
    · simp at h
    · obtain rfl := List.mem_singleton.1 h
      simp at hdriver
  · have hjoin := (spec_of_mem_joinAlternatives h).1
    rw [hdriver] at hjoin
    unfold joinDrivers at hjoin
    split at hjoin <;> simp at hjoin
  · obtain rfl := List.mem_singleton.1 h
    obtain ⟨_, _, -, hcross⟩ := n.crossSupplied sizeOf _ _
    rcases hcross.outer with hfirst | hsecond
    · rw [hfirst] at hdriver
      simp at hdriver
    · rw [hsecond] at hdriver
      simp at hdriver
  · rename_i hkind
    obtain rfl := List.mem_singleton.1 h
    exact ⟨hkind, _, _, rfl⟩
  · simp at h

end Node

/-! ## §3 Searches -/

namespace Problem

variable [Quantity α] {p : Problem α}

/-- No plan of a search declares a grouping, and no channel of it does. -/
theorem Reachable.grouped_eq_none (hg : p.graph.WellFormed) {st : Stage α} (hst : p.Reachable st)
    (q : Plan α) : q ∈ st.search.made → q.arrangement.grouped = none ∧
      ∀ c ∈ q.inputs, c.arrangement.grouped = none := by
  induction q using Plan.induct with
  | h q ih =>
    intro hq
    have hinputs : ∀ c ∈ q.inputs, c.arrangement.grouped = none := by
      intro c hc
      obtain ⟨_, -, hcarries⟩ := exists_of_forall₂_left (hst.carries hg hq) hc
      exact hcarries.lawful.grouped_eq_none (ih c hc ((hst.catalogue hg).sources q hq c hc)).1
    have houtput : q.arrangement = ((p.graph.node q.node).output ⟨q.driver, q.inputs⟩).2 :=
      congrArg Prod.snd ((hst.consistent hg).derived q hq).founded.output
    rw [houtput]
    exact ⟨Node.grouped_output hinputs, hinputs⟩

end Problem

/-- How the inputs of a co-group are sorted: each with the keys of its side in front, in an order of
its own, and alike exactly if the key positions stand alike in both orders. So they do if the
co-group sorts both itself, or if there is only one key. -/
structure Channel.SidesSorted (firstKeys secondKeys : List Nat) (a b : Channel (Plan α)) : Prop where
  first : (a.arrangement.ordering.take firstKeys.length).Perm firstKeys
  second : (b.arrangement.ordering.take secondKeys.length).Perm secondKeys
  alike_iff : SortedAlike firstKeys secondKeys a.arrangement b.arrangement ↔
    keyPositions firstKeys a.arrangement.ordering = keyPositions secondKeys b.arrangement.ordering
  of_sorts : a.work = .sort firstKeys → b.work = .sort secondKeys →
    SortedAlike firstKeys secondKeys a.arrangement b.arrangement
  of_single : firstKeys.length = 1 →
    SortedAlike firstKeys secondKeys a.arrangement b.arrangement

theorem Channel.Lawful.arrangement_of_sort {c : Channel (Plan α)} (hc : c.Lawful)
    {fields : List Nat} (h : c.work = .sort fields) : c.arrangement = .sorted fields := by
  rw [hc.arrangement, h]

theorem Channel.sidesSorted {firstKeys secondKeys : List Nat}
    (hwidth : firstKeys.length = secondKeys.length) (hfirst : firstKeys.Nodup)
    (hsecond : secondKeys.Nodup) {a b : Channel (Plan α)} (ha : a.Lawful) (hb : b.Lawful)
    (hfront : (a.arrangement.ordering.take firstKeys.length).Perm firstKeys)
    (hfront' : (b.arrangement.ordering.take secondKeys.length).Perm secondKeys) :
    Channel.SidesSorted firstKeys secondKeys a b := by
  have hiff := sortedAlike_iff hwidth hfirst hsecond hfront hfront'
  refine ⟨hfront, hfront', hiff, ?_, ?_⟩
  · intro hsort hsort'
    rw [hiff, ha.arrangement_of_sort hsort, hb.arrangement_of_sort hsort']
    show keyPositions firstKeys firstKeys = keyPositions secondKeys secondKeys
    rw [keyPositions_self hfirst, keyPositions_self hsecond, hwidth]
  · intro hone
    rw [hiff]
    have hperm := perm_keyPositions hfirst hfront
    have hperm' := perm_keyPositions hsecond hfront'
    rw [← hwidth] at hperm'
    rw [hone] at hperm hperm'
    rw [List.perm_singleton.1 hperm, List.perm_singleton.1 hperm']

/-- However a search ends, every plan that it made with the driver of a co-group belongs to a
co-group of the job, and its inputs are sorted by their keys, if neither side repeats one. -/
theorem made_coGroups_sides_sorted [Quantity α] {o : Optimizer α} {job : Job} {p : Problem α}
    (h : o.prepare job = .ok p) (clock : Nat → Nat) :
    ∀ q ∈ ({ p with clock }.candidates p.graph.root {}).2.made, q.driver = .sortedCoGroup →
      ∃ op ∈ job.operators, (p.graph.node q.node).op = some op.id ∧ op.kind = .coGroup ∧
        ((op.keysOf 0).Nodup → (op.keysOf 1).Nodup → ∃ a b, q.inputs = [a, b] ∧
          Channel.SidesSorted (op.keysOf 0) (op.keysOf 1) a b) := by
  intro q hq hdriver
  obtain ⟨hp, st, hst, hmade⟩ := o.exists_stage h clock
  rw [hmade] at hq
  have hg := hp.wellFormed
  obtain ⟨g, hbuild, rfl⟩ := o.prepare_ok h
  obtain ⟨t, choices, hder, -⟩ := ((hst.consistent hg).derived q hq).exists_derives
  obtain ⟨hkind, a, b, hinputs⟩ := Node.inputs_of_sortedCoGroup hder.alt_mem hdriver
  -- The node was not put in by layout, so it stands for an operator.
  have horigin := (Graph.depicts_of_build hbuild).origin q.node
    (hst.lt_size ((hst.consistent hg).node_done q hq))
  obtain ⟨op, hop, hstands⟩ : ∃ op ∈ job.operators, (g.node q.node).StandsFor op := by
    rcases horigin with hstands | hputIn
    · exact hstands
    · rcases hputIn.pinned with ⟨hunion, -⟩ | ⟨hjoiner, -⟩
      · rw [hunion] at hkind
        simp at hkind
      · rw [hjoiner] at hkind
        simp at hkind
  have hcoGroup : op.kind = .coGroup := by
    rw [hstands.kind_eq] at hkind
    simpa using hkind
  refine ⟨op, hop, hstands.op_eq, hcoGroup, ?_⟩
  intro hfirst hsecond
  have hinputs : q.inputs = [a.groupedOn (op.keysOf 0), b.groupedOn (op.keysOf 1)] := by
    rwa [Node.keyList_eq_keysOf hstands.keys_eq, Node.keyList_eq_keysOf hstands.keys_eq] at hinputs
  have hwidth : (op.keysOf 0).length = (op.keysOf 1).length := by
    obtain ⟨ops, _, _, _, hlisting, hperm, -⟩ := Graph.build_ok hbuild
    have hwell := Operator.checkShape_ok_iff.1 (hlisting.shaped op (hperm.mem_iff.2 hop))
    exact hwell.widths (by rw [hcoGroup]; rfl)
  have hlawful : ∀ c ∈ q.inputs, c.Lawful := by
    intro c hc
    obtain ⟨_, -, hcarries⟩ := exists_of_forall₂_left (hst.carries hg hq) hc
    exact hcarries.lawful
  have hfront : ∀ (c : Channel (Plan α)) {keys : List Nat}, keys.Nodup →
      c.groupedOn keys ∈ q.inputs →
        ((c.groupedOn keys).arrangement.ordering.take keys.length).Perm keys := by
    intro c keys hkeys hc
    exact Arrangement.perm_take_of_isGroupedOn hkeys ((hst.grouped_eq_none hg q hq).2 _ hc)
      (c.isGroupedOn_groupedOn hkeys)
  have ha : a.groupedOn (op.keysOf 0) ∈ q.inputs := by simp [hinputs]
  have hb : b.groupedOn (op.keysOf 1) ∈ q.inputs := by simp [hinputs]
  exact ⟨_, _, hinputs, Channel.sidesSorted hwidth hfirst hsecond (hlawful _ ha) (hlawful _ hb)
    (hfront a hfirst ha) (hfront b hsecond hb)⟩

/-- A co-group on two keys per side. -/
def groupsOfSources : Job where
  operators :=
    [{ id := 1, name := "a", kind := .source {} },
     { id := 2, name := "b", kind := .source {} },
     { id := 3, name := "groups", kind := .coGroup, inputs := [[1], [2]], keys := [[1, 0], [2, 0]] },
     { id := 4, name := "out", kind := .sink, inputs := [[3]] }]

/-- One of its plans sorts both sides itself. -/
theorem made_coGroups_sides_sorted_groupsOfSources : ∃ p,
    Optimizer.ofDefaults.prepare groupsOfSources = .ok p ∧
      ∃ q ∈ (p.candidates p.graph.root {}).2.made, q.driver = .sortedCoGroup ∧ ∃ a b,
        q.inputs = [a, b] ∧ a.work = .sort [1, 0] ∧ b.work = .sort [2, 0] ∧
          SortedAlike [1, 0] [2, 0] a.arrangement b.arrangement := by
  obtain ⟨p, hprepare, hcheck⟩ := exists_ok_of_any
    (r := Optimizer.ofDefaults.prepare groupsOfSources)
    (f := fun p => (p.candidates p.graph.root {}).2.made.toList.any fun q =>
      q.driver == .sortedCoGroup && q.inputs.map (·.work) == [.sort [1, 0], .sort [2, 0]])
    (by decide +kernel)
  simp only [List.any_eq_true, Bool.and_eq_true, beq_iff_eq, Array.mem_toList_iff] at hcheck
  obtain ⟨q, hq, hdriver, hworks⟩ := hcheck
  obtain ⟨op, hop, -, hkind, hsides⟩ := made_coGroups_sides_sorted hprepare p.clock q hq hdriver
  have hkeys : op.keysOf 0 = [1, 0] ∧ op.keysOf 1 = [2, 0] := by
    simp only [groupsOfSources, List.mem_cons, List.not_mem_nil, or_false] at hop
    rcases hop with rfl | rfl | rfl | rfl <;> simp_all [Operator.keysOf]
  rw [hkeys.1, hkeys.2] at hsides
  obtain ⟨a, b, hinputs, hsorted⟩ := hsides (by decide) (by decide)
  simp only [hinputs, List.map_cons, List.map_nil, List.cons.injEq, and_true] at hworks
  exact ⟨p, hprepare, q, hq, hdriver, a, b, hinputs, hworks.1, hworks.2,
    hsorted.of_sorts hworks.1 hworks.2⟩

/-- A co-group whose sides are sorted for a grouping each before, and whose second key list names
the columns in the other order. -/
def groupsOfGroups : Job where
  operators :=
    [{ id := 1, name := "a", kind := .source {} },
     { id := 2, name := "b", kind := .source {} },
     { id := 3, name := "ra", kind := .reduce, inputs := [[1]], keys := [[0, 1]]
       contract := .sameKey },
     { id := 4, name := "rb", kind := .reduce, inputs := [[2]], keys := [[0, 1]]
       contract := .sameKey },
     { id := 5, name := "groups", kind := .coGroup, inputs := [[3], [4]], keys := [[0, 1], [1, 0]] },
     { id := 6, name := "out", kind := .sink, inputs := [[5]] }]

/-- Both sides keep the order of columns 0 and 1, in which the keys of the second side are the wrong
way round. -/
theorem coGroup_sides_differ_groupsOfGroups : ∃ p,
    Optimizer.ofDefaults.prepare groupsOfGroups = .ok p ∧
      ∃ q ∈ (p.candidates p.graph.root {}).2.made, q.driver = .sortedCoGroup ∧
        (p.graph.node q.node).keys = [[0, 1], [1, 0]] ∧ ∃ a b, q.inputs = [a, b] ∧
          a.arrangement.ordering = [0, 1] ∧ b.arrangement.ordering = [0, 1] ∧
            ¬ SortedAlike [0, 1] [1, 0] a.arrangement b.arrangement := by
  obtain ⟨p, hprepare, hcheck⟩ := exists_ok_of_any
    (r := Optimizer.ofDefaults.prepare groupsOfGroups)
    (f := fun p => (p.candidates p.graph.root {}).2.made.toList.any fun q =>
      q.driver == .sortedCoGroup && (p.graph.node q.node).keys == [[0, 1], [1, 0]] &&
        q.inputs.map (·.arrangement.ordering) == [[0, 1], [0, 1]]) (by decide +kernel)
  simp only [List.any_eq_true, Bool.and_eq_true, beq_iff_eq, Array.mem_toList_iff] at hcheck
  obtain ⟨q, hq, ⟨hdriver, hkeys⟩, horders⟩ := hcheck
  obtain ⟨a, _, hinputs, ha, hrest⟩ := List.map_eq_cons_iff.1 horders
  obtain ⟨b, _, rfl, hb, hnil⟩ := List.map_eq_cons_iff.1 hrest
  obtain rfl := List.map_eq_nil_iff.1 hnil
  refine ⟨p, hprepare, q, hq, hdriver, hkeys, a, b, hinputs, ha, hb, ?_⟩
  have hwidth : [0, 1].length = [1, 0].length := rfl
  rw [sortedAlike_iff hwidth (by decide) (by decide) (by rw [ha]; decide) (by rw [hb]; decide), ha,
    hb]
  decide

end FlowPlanner
