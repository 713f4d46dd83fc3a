/-
FlowPlanner.Proofs.Search.Partitioning — when repartitioning partitions alike.

A join and a co-group ask whether their inputs are partitioned alike, and hash each side on
its keys if they are not. The question goes through the key lists column by column
(`correspondingKey?`); hashing knows the columns only as a set. The two fit together
exactly if every column of the second list corresponds to a column of the first
(`KeysCorrespond`), as it does where the first list repeats no column.
-/
import FlowPlanner.Proofs.Job.Acceptance
import FlowPlanner.Proofs.Search.Validity

namespace FlowPlanner

variable {α : Type}

/-! ## §1 Corresponding columns -/

theorem mapM_eq_some_iff {β γ : Type} {f : β → Option γ} {xs : List β} : ∀ {ys : List γ},
    xs.mapM f = some ys ↔ xs.map f = ys.map some := by
  induction xs with
  | nil => intro ys; cases ys <;> simp
  | cons x xs ih =>
    intro ys
    rw [List.mapM_cons, List.map_cons, Option.bind_eq_bind, Option.bind_eq_some_iff]
    constructor
    · rintro ⟨y, hy, hrest⟩
      obtain ⟨zs, hzs, heq⟩ := Option.bind_eq_some_iff.1 hrest
      obtain rfl := Option.some.inj heq
      rw [List.map_cons, hy, ih.1 hzs]
    · intro h
      cases ys with
      | nil => simp at h
      | cons y ys =>
        obtain ⟨hy, hys⟩ := List.cons.inj h
        exact ⟨y, hy, Option.bind_eq_some_iff.2 ⟨ys, ih.2 hys, rfl⟩⟩

/-- Every column of the second key list corresponds to a column of the first. -/
def KeysCorrespond (firstKeys secondKeys : List Nat) : Prop :=
  ∀ c ∈ secondKeys, ∃ f ∈ firstKeys, correspondingKey? firstKeys secondKeys f = some c

instance (firstKeys secondKeys : List Nat) : Decidable (KeysCorrespond firstKeys secondKeys) :=
  inferInstanceAs (Decidable (∀ c ∈ secondKeys, ∃ f ∈ firstKeys,
    correspondingKey? firstKeys secondKeys f = some c))

variable {firstKeys secondKeys : List Nat}

/-- In lists of one width every column of the first corresponds to one of the second. -/
theorem exists_correspondingKey? (hwidth : firstKeys.length = secondKeys.length) {f : Nat}
    (hf : f ∈ firstKeys) : ∃ c ∈ secondKeys, correspondingKey? firstKeys secondKeys f = some c := by
  have hfound : (firstKeys.findIdx? (· == f)).isSome = true := by
    rw [List.findIdx?_isSome, List.any_eq_true]
    exact ⟨f, hf, beq_self_eq_true f⟩
  obtain ⟨i, hi⟩ := Option.isSome_iff_exists.1 hfound
  have hlt : i < secondKeys.length := by
    obtain ⟨hlt, -, -⟩ := List.findIdx?_eq_some_iff_getElem.1 hi
    exact hwidth ▸ hlt
  refine ⟨secondKeys[i], List.getElem_mem hlt, ?_⟩
  unfold correspondingKey?
  rw [hi, Option.bind_some, List.getElem?_eq_getElem hlt]

/-- Where the first list repeats no column, columns correspond position by position. -/
theorem keysCorrespond_of_nodup (hwidth : firstKeys.length = secondKeys.length)
    (hnodup : firstKeys.Nodup) : KeysCorrespond firstKeys secondKeys := by
  intro c hc
  obtain ⟨i, hi, rfl⟩ := List.mem_iff_getElem.1 hc
  have hfirst : i < firstKeys.length := hwidth ▸ hi
  refine ⟨firstKeys[i], List.getElem_mem hfirst, ?_⟩
  have hfound := findIdx?_eq_of_nodup (f := id) (by simpa using hnodup)
    (List.getElem?_eq_getElem hfirst)
  unfold correspondingKey?
  rw [show firstKeys.findIdx? (· == firstKeys[i]) = some i from hfound, Option.bind_some,
    List.getElem?_eq_getElem hi]

/-! ## §2 Inputs hashed on their keys -/

theorem isCoPartitioned_hashed_iff {s t : FieldSet} :
    isCoPartitioned (.hashed s) (.hashed t) firstKeys secondKeys = true ↔ s.isEmpty = false ∧
      ∃ mapped, s.toList.map (correspondingKey? firstKeys secondKeys) = mapped.map some ∧
        FieldSet.ofList mapped = t := by
  simp only [← mapM_eq_some_iff]
  unfold isCoPartitioned Placement.fields?
  dsimp only
  rw [Bool.and_eq_true, Bool.not_eq_true']
  refine and_congr_right fun _ => ?_
  cases s.toList.mapM (correspondingKey? firstKeys secondKeys) with
  | none => simp
  | some mapped => simp

/-- Two inputs, each hashed on all its keys, are partitioned alike exactly if the key lists
correspond. -/
theorem isCoPartitioned_keys_iff (hne : firstKeys ≠ [])
    (hwidth : firstKeys.length = secondKeys.length) :
    isCoPartitioned (.hashed (.ofList firstKeys)) (.hashed (.ofList secondKeys)) firstKeys
      secondKeys = true ↔ KeysCorrespond firstKeys secondKeys := by
  have hmember : ∀ f, f ∈ (FieldSet.ofList firstKeys).toList ↔ f ∈ firstKeys :=
    fun _ => FieldSet.mem_ofList
  -- What the columns of the first list correspond to.
  have hmapped : ∀ mapped : List Nat, (FieldSet.ofList firstKeys).toList.map
      (correspondingKey? firstKeys secondKeys) = mapped.map some → ∀ c, c ∈ mapped ↔
        ∃ f ∈ firstKeys, correspondingKey? firstKeys secondKeys f = some c := by
    intro mapped hmap c
    have hc : c ∈ mapped ↔ some c ∈ mapped.map some := by simp
    rw [hc, ← hmap, List.mem_map]
    simp only [hmember]
  rw [isCoPartitioned_hashed_iff]
  constructor
  · rintro ⟨-, mapped, hmap, hset⟩ c hc
    rw [← hmapped mapped hmap, ← FieldSet.mem_ofList, hset, FieldSet.mem_ofList]
    exact hc
  · intro hkeys
    obtain ⟨mapped, hmap⟩ : ∃ mapped : List Nat, (FieldSet.ofList firstKeys).toList.map
        (correspondingKey? firstKeys secondKeys) = mapped.map some := by
      refine ⟨(FieldSet.ofList firstKeys).toList.map fun f =>
        (correspondingKey? firstKeys secondKeys f).getD 0, ?_⟩
      rw [List.map_map]
      refine List.map_congr_left fun f hf => ?_
      obtain ⟨c, -, hc⟩ := exists_correspondingKey? hwidth ((hmember f).1 hf)
      rw [Function.comp_apply, hc, Option.getD_some]
    refine ⟨FieldSet.isEmpty_ofList hne, mapped, hmap, FieldSet.ext fun c => ?_⟩
    rw [FieldSet.mem_ofList, FieldSet.mem_ofList, hmapped mapped hmap]
    constructor
    · rintro ⟨f, hf, hc⟩
      obtain ⟨c', hc', heq⟩ := exists_correspondingKey? hwidth hf
      rw [hc] at heq
      exact Option.some.inj heq ▸ hc'
    · exact hkeys c

/-! ## §3 What joins and co-groups make of their inputs -/

/-- Two inputs are as a join or a co-group wants them: partitioned alike or, for a join, exactly one
of them replicated. -/
def Node.Pairs (n : Node) (a b : Placement) : Prop :=
  n.kind = .operator .equiJoin ∧ Xor (a = .replicated) (b = .replicated) ∨
    isCoPartitioned a b (n.keyList 0) (n.keyList 1) = true

namespace Node

variable {n : Node} {a b : Channel (Plan α)} {alt : Alternative α}

/-- The placements of a pair of inputs and of what an alternative makes of them: the same, if they
are as the node wants them, and else by hash on the keys. -/
def Repartitions (n : Node) (a b x y : Placement) : Prop :=
  n.Pairs a b ∧ x = a ∧ y = b ∨
    ¬ n.Pairs a b ∧ x = .hashed (.ofList (n.keyList 0)) ∧ y = .hashed (.ofList (n.keyList 1))

theorem repartitions_coPartition (hone : ¬ (n.kind = .operator .equiJoin ∧
      Xor (a.placement = .replicated) (b.placement = .replicated)))
    (ha : a.forced = false) (hb : b.forced = false) :
    n.Repartitions a.placement b.placement
      (coPartition a b (n.keyList 0) (n.keyList 1)).1.placement
      (coPartition a b (n.keyList 0) (n.keyList 1)).2.placement := by
  unfold Repartitions Pairs
  rw [or_iff_right hone]
  unfold coPartition
  split
  · rename_i halike
    exact .inl ⟨halike, rfl, rfl⟩
  · rename_i halike
    exact .inr ⟨halike, Channel.placement_repartition ha _, Channel.placement_repartition hb _⟩

theorem repartitions_coGroupAlternative (hkind : n.kind = .operator .coGroup)
    (ha : a.forced = false) (hb : b.forced = false) :
    ∃ x y, (n.coGroupAlternative a b).inputs = [x, y] ∧
      n.Repartitions a.placement b.placement x.placement y.placement := by
  refine ⟨(coPartition a b (n.keyList 0) (n.keyList 1)).1.groupedOn (n.keyList 0),
    (coPartition a b (n.keyList 0) (n.keyList 1)).2.groupedOn (n.keyList 1), rfl, ?_⟩
  rw [Channel.placement_groupedOn, Channel.placement_groupedOn]
  exact repartitions_coPartition (by simp [hkind]) ha hb

theorem repartitions_joinPair (hkind : n.kind = .operator .equiJoin) (ha : a.forced = false)
    (hb : b.forced = false) : n.Repartitions a.placement b.placement
      (n.joinPair a b).1.placement (n.joinPair a b).2.placement := by
  unfold joinPair
  split
  · rename_i hone
    exact .inl ⟨.inl ⟨hkind, Placement.bne_isReplicated_iff.1 hone⟩, rfl, rfl⟩
  · rename_i hone
    rw [Placement.bne_isReplicated_iff] at hone
    exact repartitions_coPartition (fun h => hone h.2) ha hb

/-- Sorting leaves the data where it is. -/
theorem repartitions_of_mem_joinAlternatives (hkind : n.kind = .operator .equiJoin)
    (ha : a.forced = false) (hb : b.forced = false) (h : alt ∈ n.joinAlternatives a b) :
    ∃ x y, alt.inputs = [x, y] ∧
      n.Repartitions a.placement b.placement x.placement y.placement := by
  have hpair := repartitions_joinPair hkind ha hb
  obtain ⟨-, hinputs⟩ := spec_of_mem_joinAlternatives h
  split at hinputs
  · exact ⟨_, _, hinputs, by simpa using hpair⟩
  · exact ⟨_, _, hinputs, hpair⟩

variable [Quantity α] {sizeOf : NodeId → Option α}

theorem repartitions_of_mem_alternatives
    (hkind : n.kind = .operator .equiJoin ∨ n.kind = .operator .coGroup) (ha : a.forced = false)
    (hb : b.forced = false) (h : alt ∈ n.alternatives sizeOf [a, b]) :
    ∃ x y, alt.inputs = [x, y] ∧
      n.Repartitions a.placement b.placement x.placement y.placement := by
  unfold alternatives at h
  rcases hkind with hkind | hkind
  · rw [hkind] at h
    exact repartitions_of_mem_joinAlternatives hkind ha hb h
  · rw [hkind] at h
    obtain rfl := List.mem_singleton.1 h
    exact repartitions_coGroupAlternative hkind ha hb

/-- Inputs that were as the node wants them are so afterwards; others are exactly if hashing on the
keys makes them so. -/
theorem Repartitions.pairs_iff {a b x y : Placement} (h : n.Repartitions a b x y) :
    n.Pairs x y ↔ n.Pairs a b ∨ isCoPartitioned (.hashed (.ofList (n.keyList 0)))
      (.hashed (.ofList (n.keyList 1))) (n.keyList 0) (n.keyList 1) = true := by
  rcases h with ⟨hpairs, rfl, rfl⟩ | ⟨hpairs, rfl, rfl⟩
  · simp [hpairs]
  · rw [or_iff_right hpairs]
    simp [Pairs, Xor]

end Node

/-- A join or a co-group whose keys passed the check is given two inputs for which no hint decides.
What it makes of them is as it wants it exactly if they were so already or its key lists correspond;
in particular it always is if the first list repeats no column. -/
theorem repartitioned_pairs_iff [Quantity α] {op : Operator} (hshape : op.checkShape = .ok ())
    (hop : op.kind = .equiJoin ∨ op.kind = .coGroup) {n : Node} (hn : n.kind = .operator op.kind)
    (hkeys : n.keys = op.keys) {sizeOf : NodeId → Option α} :
    (∀ a b : Channel (Plan α), a.forced = false → b.forced = false →
      ∀ alt ∈ n.alternatives sizeOf [a, b], ∃ x y, alt.inputs = [x, y] ∧
        (n.Pairs x.placement y.placement ↔
          n.Pairs a.placement b.placement ∨ KeysCorrespond (op.keysOf 0) (op.keysOf 1))) ∧
      ((op.keysOf 0).Nodup → KeysCorrespond (op.keysOf 0) (op.keysOf 1)) := by
  have hwell := Operator.checkShape_ok_iff.1 hshape
  have harity : op.kind.arity = 2 ∧ op.kind.requiresKeys = true := by
    rcases hop with hop | hop <;> simp [hop, Kind.arity, Kind.requiresKeys]
  have hwidth := hwell.widths harity.1
  have hne : op.keysOf 0 ≠ [] := hwell.keyed harity.2 0 (by simp [harity.1])
  have hkind : n.kind = .operator .equiJoin ∨ n.kind = .operator .coGroup := by
    rw [hn]
    exact hop.imp (congrArg _) (congrArg _)
  have hkeyList := Node.keyList_eq_keysOf hkeys
  refine ⟨?_, fun hnodup => keysCorrespond_of_nodup hwidth hnodup⟩
  intro a b ha hb alt halt
  obtain ⟨x, y, hinputs, hrepartitions⟩ := Node.repartitions_of_mem_alternatives hkind ha hb halt
  refine ⟨x, y, hinputs, ?_⟩
  rw [hrepartitions.pairs_iff, hkeyList, hkeyList, isCoPartitioned_keys_iff hne hwidth]

/-- A co-group whose second key list repeats a column. -/
def narrowGroups : Operator :=
  { id := 3, name := "groups", kind := .coGroup, inputs := [[1], [2]], keys := [[0, 1], [2, 2]] }

/-- Its node. -/
def narrowGroupsNode : Node :=
  { id := 2, name := "groups", kind := .operator .coGroup, keys := [[0, 1], [2, 2]]
    parallelism := 1, memoryBytes := 0 }

/-- Data of which nothing is known. -/
def anyData : Channel (Plan Float) :=
  .forward ⟨0, 0, "in", .dataSource, [], .any, .unordered, .zero, .zero, Table.empty⟩ 0

/-- Hashed on columns 0 and 1 and on column 2, the inputs are partitioned alike. -/
theorem repartitioned_pairs_iff_narrowGroups : narrowGroups.checkShape = .ok () ∧
    ¬ narrowGroupsNode.Pairs anyData.placement anyData.placement ∧
      ∃ alt ∈ narrowGroupsNode.alternatives (fun _ => none) [anyData, anyData],
        ∃ x y, alt.inputs = [x, y] ∧ narrowGroupsNode.Pairs x.placement y.placement := by
  have hshape : narrowGroups.checkShape = .ok () := by rfl
  have halt : narrowGroupsNode.coGroupAlternative anyData anyData ∈
      narrowGroupsNode.alternatives (fun _ => none) [anyData, anyData] := List.mem_singleton_self _
  obtain ⟨hall, hnodup⟩ := repartitioned_pairs_iff (α := Float) (n := narrowGroupsNode) hshape
    (.inr rfl) rfl rfl
  obtain ⟨x, y, hinputs, hpairs⟩ := hall anyData anyData rfl rfl _ halt
  refine ⟨hshape, ?_, _, halt, x, y, hinputs, hpairs.2 (.inr (hnodup (by decide)))⟩
  simp [anyData, Channel.forward, Node.Pairs, isCoPartitioned, Placement.fields?]

/-- A co-group of two sources whose first key list repeats a column. -/
def repeatedKey : Job where
  operators :=
    [{ id := 1, name := "a", kind := .source {} },
     { id := 2, name := "b", kind := .source {} },
     { id := 3, name := "groups", kind := .coGroup, inputs := [[1], [2]], keys := [[0, 0], [0, 1]] },
     { id := 4, name := "out", kind := .sink, inputs := [[3]] }]

/-- The co-group hashes its inputs on column 0 and on columns 0 and 1, where column 0 of the first
corresponds to column 0 of the second alone. -/
theorem repartition_fails_repeatedKey : ∃ p, Optimizer.ofDefaults.prepare repeatedKey = .ok p ∧
    ∃ q ∈ (p.candidates p.graph.root {}).2.made, ∃ x y, q.inputs = [x, y] ∧
      x.forced = false ∧ y.forced = false ∧ x.placement = .hashed (.ofList [0]) ∧
        y.placement = .hashed (.ofList [0, 1]) ∧ q.driver = .sortedCoGroup ∧
          ¬ (p.graph.node q.node).Pairs x.placement y.placement := by
  obtain ⟨p, hprepare, hcheck⟩ := exists_ok_of_any
    (r := Optimizer.ofDefaults.prepare repeatedKey)
    (f := fun p => (p.candidates p.graph.root {}).2.made.toList.any fun q =>
      q.driver == .sortedCoGroup && (p.graph.node q.node).keys == [[0, 0], [0, 1]] &&
        q.inputs.map (fun c => (c.forced, c.placement)) ==
          [(false, .hashed (.ofList [0])), (false, .hashed (.ofList [0, 1]))]) (by decide +kernel)
  simp only [List.any_eq_true, Bool.and_eq_true, beq_iff_eq, Array.mem_toList_iff] at hcheck
  obtain ⟨q, hq, ⟨hdriver, hkeys⟩, hinputs⟩ := hcheck
  obtain ⟨x, _, hq₁, hx, hrest⟩ := List.map_eq_cons_iff.1 hinputs
  obtain ⟨y, _, rfl, hy, hnil⟩ := List.map_eq_cons_iff.1 hrest
  obtain rfl := List.map_eq_nil_iff.1 hnil
  simp only [Prod.mk.injEq] at hx hy
  refine ⟨p, hprepare, q, hq, x, y, hq₁, hx.1, hy.1, hx.2, hy.2, hdriver, ?_⟩
  have hnot : isCoPartitioned (.hashed (.ofList [0])) (.hashed (.ofList [0, 1])) [0, 0] [0, 1] =
      false := by decide +kernel
  rw [hx.2, hy.2]
  unfold Node.Pairs Node.keyList
  rw [hkeys]
  simp [Xor, hnot]

end FlowPlanner
