/-
FlowPlanner.Proofs.Search.Hints — what the user hints is what the plans do.

A hint becomes the pin of connections when the job is laid out, a forced channel
when the search offers channels, and a forced channel is neither placed on request
nor partitioned or copied by a driver: so in every plan it ships as the hint says
(`Plan.Obeys`). A driver hint leaves a join one driver only.
-/
import FlowPlanner.Proofs.Graph.Origin
import FlowPlanner.Proofs.Search.Validity

namespace FlowPlanner

variable {α : Type}

/-- A plan of the operator's node ships every input as the word for its position says, and runs as
the hint for the driver says if the operator is a join. -/
structure Plan.Obeys (q : Plan α) (n : Node) (op : Operator) : Prop where
  kind_eq : n.kind = .operator op.kind
  ships : List.Forall₂ (fun ch c => ch.connection = c.id ∧
    ∀ word, op.shipWord? c.position = some word →
      Ship.named? (op.keysOf c.position) word = some ch.ship) q.inputs n.inputs
  runs : op.kind = .equiJoin → ∀ word, op.word? "local_strategy" = some word →
    Driver.joining? word = some q.driver

/-! ## §1 Drivers of joins -/

theorem DriverHint.eq_name_of_ofName? {word : String} {hint : DriverHint}
    (h : DriverHint.ofName? word = some hint) : word = hint.name := by
  unfold ofName? at h
  split at h
  all_goals try (rw [← Option.some.inj h]; rfl)
  simp at h

namespace Node

variable {n : Node} {alt : Alternative α}

/-- A join with a hint for its driver has that driver only. -/
theorem joining?_of_mem_joinDrivers {word : String} {hint : DriverHint}
    (hword : DriverHint.ofName? word = some hint) (hfits : hint.appliesTo .equiJoin = true)
    (hn : n.driver = some hint) {driver : Driver} (h : driver ∈ n.joinDrivers) :
    Driver.joining? word = some driver := by
  obtain rfl := DriverHint.eq_name_of_ofName? hword
  cases hint with
  | sort | nestedLoopFirst | nestedLoopSecond => simp [DriverHint.appliesTo] at hfits
  | hashBuildFirst | hashBuildSecond | sortMerge =>
    rw [joinDrivers, hn, List.mem_singleton] at h
    rw [h]
    rfl

/-- A join runs with one of its drivers. -/
theorem driver_mem_joinDrivers [Quantity α] {sizeOf : NodeId → Option α}
    {t : List (Channel (Plan α))} (hkind : n.kind = .operator .equiJoin)
    (h : alt ∈ n.alternatives sizeOf t) : alt.driver ∈ n.joinDrivers := by
  unfold alternatives at h
  rw [hkind] at h
  match t, h with
  | [], h => simp at h
  | [_], h => simp at h
  | a :: b :: _, h => exact (spec_of_mem_joinAlternatives h).1

end Node

/-! ## §2 Plans -/

namespace Problem

variable [Quantity α] {p : Problem α}

theorem Reachable.driver_mem_joinDrivers (hg : p.graph.WellFormed) {st : Stage α}
    (hst : p.Reachable st) {q : Plan α} (hq : q ∈ st.search.made)
    (hkind : (p.graph.node q.node).kind = .operator .equiJoin) :
    q.driver ∈ (p.graph.node q.node).joinDrivers := by
  obtain ⟨t, choices, hder, -⟩ := ((hst.consistent hg).derived q hq).exists_derives
  exact Node.driver_mem_joinDrivers hkind hder.alt_mem

/-- A plan of an operator's node obeys the hints of the operator. -/
theorem Reachable.obeys (hg : p.graph.WellFormed) {st : Stage α} (hst : p.Reachable st)
    {q : Plan α} (hq : q ∈ st.search.made) {op : Operator}
    (hop : (p.graph.node q.node).StandsFor op) : q.Obeys (p.graph.node q.node) op := by
  obtain ⟨hints, hhints, hdriver, hpins⟩ := hop.hinted
  have hunderstood := Operator.understood_of_resolveHints hhints
  have haccepted := hg.accepted q.node (hst.lt_size ((hst.consistent hg).node_done q hq))
  rw [hop.kind_eq] at haccepted
  refine ⟨hop.kind_eq, ?_, ?_⟩
  · refine forall₂_imp_of_mem (hst.carries hg hq) ?_
    intro ch c hc hcarries
    refine ⟨hcarries.connection, ?_⟩
    intro word hword
    have hforced := hunderstood.forcedShip (haccepted.position_lt (List.mem_map_of_mem hc))
      (hpins c hc).1 (hpins c hc).2
    rw [hword, Option.map_some] at hforced
    obtain ⟨ship, hship, hnamed⟩ := Option.map_eq_some_iff.1 hforced.symm
    rw [hcarries.ship ship hship, hnamed]
  · intro hkind word hword
    have hname := hunderstood.driver
    rw [hword, Option.map_some] at hname
    obtain ⟨hint, hhint, hnamed⟩ := Option.map_eq_some_iff.1 hname.symm
    have hfits := hunderstood.fits hint hhint
    rw [hkind] at hfits
    exact Node.joining?_of_mem_joinDrivers hnamed.symm hfits (hdriver.trans hhint)
      (hst.driver_mem_joinDrivers hg hq (by rw [hop.kind_eq, hkind]))

/-- A plan of a union that layout put in forwards all that it reads. -/
theorem Reachable.forwards (hg : p.graph.WellFormed) {st : Stage α} (hst : p.Reachable st)
    {q : Plan α} (hq : q ∈ st.search.made) (hop : (p.graph.node q.node).IsPutIn)
    (hkind : (p.graph.node q.node).kind = .operator .union) :
    ∀ ch ∈ q.inputs, ch.ship = .forward := by
  intro ch hch
  obtain ⟨c, hc, hcarries⟩ := exists_of_forall₂_left (hst.carries hg hq) hch
  rcases hop.pinned with ⟨-, hpin⟩ | ⟨hjoiner, -⟩
  · refine hcarries.ship .forward ?_
    unfold Connection.forcedShip
    rw [hpin c hc]
  · rw [hkind] at hjoiner
    simp at hjoiner

end Problem

/-- Every operator has one node. However a search ends, every plan that it made for the node of an
operator does what the hints of the operator say, and every plan of a union that layout put in
forwards all that it reads. -/
theorem made_plans_obey_hints [Quantity α] {o : Optimizer α} {job : Job} {p : Problem α}
    (h : o.prepare job = .ok p) :
    (∀ op ∈ job.operators, ∃! n, n < p.graph.size ∧ (p.graph.node n).op = some op.id) ∧
      ∀ clock, ∀ q ∈ ({ p with clock }.candidates p.graph.root {}).2.made,
        (∀ op ∈ job.operators, (p.graph.node q.node).op = some op.id →
          q.Obeys (p.graph.node q.node) op) ∧
        ((p.graph.node q.node).op = none → (p.graph.node q.node).kind = .operator .union →
          ∀ ch ∈ q.inputs, ch.ship = .forward) := by
  have hdepicts : p.graph.Depicts job := by
    obtain ⟨g, hbuild, rfl⟩ := o.prepare_ok h
    exact Graph.depicts_of_build hbuild
  refine ⟨hdepicts.unique, ?_⟩
  intro clock q hq
  obtain ⟨hp, st, hst, hmade⟩ := Optimizer.exists_stage h clock
  rw [hmade] at hq
  have hlt : q.node < p.graph.size :=
    hst.lt_size ((hst.consistent hp.wellFormed).node_done q hq)
  constructor
  · intro op hop hnode
    rcases hdepicts.origin q.node hlt with ⟨op', hop', hstands⟩ | hputIn
    · have hid : op.id = op'.id := Option.some.inj (hnode.symm.trans hstands.op_eq)
      obtain rfl := hdepicts.ids op hop op' hop' hid
      exact hst.obeys hp.wellFormed hq hstands
    · rw [hputIn.op_eq] at hnode
      simp at hnode
  · intro hnone hkind
    rcases hdepicts.origin q.node hlt with ⟨op', -, hstands⟩ | hputIn
    · rw [hstands.op_eq] at hnone
      simp at hnone
    · exact hst.forwards hp.wellFormed hq hputIn hkind

/-- A join whose first input has two producers and is partitioned, while its second one is copied
like all that have no hint of their own. -/
def hintedOperator : Operator :=
  { id := 4, name := "join", kind := .equiJoin, inputs := [[1, 2], [3]], keys := [[0], [1]]
    hints := ((Table.empty.insert "ship_strategy" "broadcast").insert "ship_strategy.first"
      "repartition").insert "local_strategy" " sort_merge " }

def hintedJoin : Job where
  operators :=
    [{ id := 1, name := "a", kind := .source {} },
     { id := 2, name := "b", kind := .source {} },
     { id := 3, name := "c", kind := .source {} },
     hintedOperator,
     { id := 5, name := "out", kind := .sink, inputs := [[4]] }]

theorem NodeKind.eq_union_of_name_eq {kind : NodeKind} (h : kind.name = "union") :
    kind = .operator .union := by
  cases kind with
  | sinkJoiner => simp [name] at h
  | operator kind => cases kind <;> simp_all [name, Kind.name]

/-- Both the join and the union in front of it have plans. -/
theorem made_plans_obey_hintedJoin : ∃ p, Optimizer.ofDefaults.prepare hintedJoin = .ok p ∧
    (∃ q ∈ (p.candidates p.graph.root {}).2.made,
      (p.graph.node q.node).op = some hintedOperator.id ∧
        q.Obeys (p.graph.node q.node) hintedOperator ∧ q.driver = .sortMerge) ∧
      ∃ q ∈ (p.candidates p.graph.root {}).2.made, (p.graph.node q.node).op = none ∧
        (p.graph.node q.node).kind = .operator .union ∧ ∀ ch ∈ q.inputs, ch.ship = .forward := by
  obtain ⟨p, hprepare, hcheck⟩ := exists_ok_of_any
    (r := Optimizer.ofDefaults.prepare hintedJoin)
    (f := fun p => decide (4 < p.graph.size) &&
      ((p.graph.node 4).op == some hintedOperator.id && ((p.graph.node 3).op == none &&
        (p.graph.node 3).kind.name == "union"))) (by decide +kernel)
  simp only [Bool.and_eq_true, decide_eq_true_eq, beq_iff_eq] at hcheck
  obtain ⟨hsize, hjoin, hnone, hunion⟩ := hcheck
  have hconfig := Optimizer.config_eq hprepare
  have hmade := fun n (hn : n < p.graph.size) =>
    Problem.exists_made_of_unlimited (Optimizer.prepared hprepare) (by rw [hconfig]; rfl)
      (by rw [hconfig]; rfl) hn
  obtain ⟨-, hplans⟩ := made_plans_obey_hints hprepare
  refine ⟨p, hprepare, ?_, ?_⟩
  · obtain ⟨q, hq, hnode⟩ := hmade 4 hsize
    rw [← hnode] at hjoin
    have hobeys := (hplans p.clock q hq).1 hintedOperator (by simp [hintedJoin]) hjoin
    have hdriver := hobeys.runs rfl "sort_merge" (by decide +kernel)
    exact ⟨q, hq, hjoin, hobeys, (Option.some.inj hdriver).symm⟩
  · obtain ⟨q, hq, hnode⟩ := hmade 3 (Nat.lt_of_succ_lt hsize)
    rw [← hnode] at hnone hunion
    have hkind := NodeKind.eq_union_of_name_eq hunion
    exact ⟨q, hq, hnone, hkind, (hplans p.clock q hq).2 hnone hkind⟩

end FlowPlanner
