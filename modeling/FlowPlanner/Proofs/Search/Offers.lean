/-
FlowPlanner.Proofs.Search.Offers — what the channels over a connection are good for.

Consumers ask for properties, and the search offers a channel for every request. It does
what is asked: shipping as requested places data as requested, and sorting by the columns
of an arrangement arranges it so. This needs requests that can be met at all, which is
what connections carry (`Graph.wellFormed_of_mem_requestsOver`). What an offer claims of
its data follows from its producer, its strategies and the parallelism at both ends
(`Channel.arrival`), so leaving out what is offered twice hides no property.
-/
import FlowPlanner.Proofs.Analysis.Requests
import FlowPlanner.Proofs.Search.Validity

namespace FlowPlanner

variable {α : Type}

/-! ## §1 Realized requests -/

theorem FieldSet.ofList_toList (s : FieldSet) : FieldSet.ofList s.toList = s :=
  FieldSet.ext fun _ => FieldSet.mem_ofList

namespace Arrangement

theorem isGroupedOn_sorted_toList (s : FieldSet) : (sorted s.toList).isGroupedOn s = true := by
  simp [isGroupedOn, sorted, FieldSet.size, FieldSet.ofList_toList]

/-- Sorted by its columns data is arranged as asked, unless an order and a grouping are asked for at
once. -/
theorem isMetBy_sorted_sortFields {a : Arrangement} (h : a.ordering = [] ∨ a.grouped = none) :
    a.isMetBy (sorted a.sortFields) = true := by
  unfold isMetBy
  rw [Bool.and_eq_true, isSortedOn_iff]
  rcases h with hunordered | hungrouped
  · rw [hunordered]
    refine ⟨List.nil_prefix, ?_⟩
    cases hgrouped : a.grouped with
    | none => rfl
    | some fields =>
      have hfields : a.sortFields = fields.toList := by simp [sortFields, hunordered, hgrouped]
      rw [hfields]
      exact isGroupedOn_sorted_toList fields
  · rw [hungrouped]
    refine ⟨?_, rfl⟩
    unfold sortFields
    cases hordering : a.ordering with
    | nil => exact List.nil_prefix
    | cons f fs => exact List.prefix_refl (f :: fs)

end Arrangement

namespace Channel

variable {c : Channel (Plan α)}

/-- Sorting as asked arranges the data as asked. -/
theorem isMetBy_arrange {a : Arrangement} (h : a.ordering = [] ∨ a.grouped = none) :
    a.isMetBy (c.arrange a).arrangement = true := by
  unfold arrange
  split
  · rename_i hmet
    exact hmet
  · exact Arrangement.isMetBy_sorted_sortFields h

/-- A channel that realizes a request meets it, as far as no hint decides. -/
theorem isMetBy_realize {r : Request α} (hr : r.WellFormed) :
    r.arrangement.isMetBy (c.realize r).arrangement = true ∧
      (c.forced = false → r.placement.isMetBy (c.realize r).placement = true) := by
  unfold realize
  rw [placement_arrange]
  exact ⟨isMetBy_arrange hr.single, fun hforced => isMetBy_place hforced hr.hashed⟩

/-! ## §2 What offers claim -/

/-- What holds of data on arrival: what its producer left it with, the change of parallelism, the
way it is shipped and the work done on it decide. -/
def arrival (left : Placement × Arrangement) (rescaled : Bool) (ship : Ship)
    (work : LocalStrategy) : Placement × Arrangement :=
  let shipped : Placement × Arrangement :=
    match ship with
    | .forward => if rescaled then (.any, .unordered) else left
    | .broadcast => (.replicated, .unordered)
    | .partitionHash fields => (.hashed fields, .unordered)
  match work with
  | .none => shipped
  | .sort fields => (shipped.1, .sorted fields)

theorem Lawful.properties_eq (h : c.Lawful) : c.properties =
    arrival (c.source.placement, c.source.arrangement) c.rescaled c.ship c.work := by
  unfold properties arrival
  rw [h.placement, h.arrangement]
  cases c.work <;> cases c.ship <;> cases c.rescaled <;> rfl

end Channel

/-! ## §3 The channels of a connection -/

namespace Problem

/-- The channels over a connection are complete, free of repeats, and claim what is so. -/
structure WellOffered (p : Problem α) (c : Connection) (producers : List (Plan α)) : Prop where
  /-- The plain channel from every producer is there. -/
  base : ∀ q ∈ producers, p.baseChannel c q ∈ p.channels c producers
  /-- From every producer every request is met, but for the placement where a hint decides. -/
  meets : ∀ q ∈ producers, ∀ r ∈ p.analysis.requestsOver c.id, ∃ ch ∈ p.channels c producers,
    ch.source = q ∧ r.arrangement.isMetBy ch.arrangement = true ∧
      (c.forcedShip = none → r.placement.isMetBy ch.placement = true)
  /-- A hint is obeyed by all of them. -/
  forced : ∀ ch ∈ p.channels c producers, ∀ ship, c.forcedShip = some ship → ch.ship = ship
  /-- No two come from one producer and ship and sort alike. -/
  distinct : ((p.channels c producers).map fun ch => (ch.source.id, ch.ship, ch.work)).Nodup
  /-- Nothing else is there but what is offered for some producer, and none of that is left out. -/
  mem_iff : ∀ ch, ch ∈ p.channels c producers ↔ ∃ q ∈ producers, ch ∈ p.offers c q
  /-- Offers that count as the same are the same, so what is left out differs in nothing. -/
  alike : ∀ a b, (∃ q ∈ producers, a ∈ p.offers c q) → (∃ q ∈ producers, b ∈ p.offers c q) →
    a.isSame b = true → a = b
  /-- What an offer claims of its data follows from its producer's output and its strategies. -/
  claims : ∀ q ∈ producers, ∀ ch ∈ p.offers c q, ch.source = q ∧ ch.properties =
    Channel.arrival (q.placement, q.arrangement)
      ((p.graph.node c.source).parallelism != (p.graph.node c.target).parallelism) ch.ship ch.work

variable {p : Problem α} {c : Connection} {producers : List (Plan α)}

/-- An offer realizes its connection. -/
theorem carries_of_mem_offers {q : Plan α} {ch : Channel (Plan α)} (h : ch ∈ p.offers c q) :
    p.Carries ch c := (p.carries_baseChannel c q).becomes (becomes_of_mem_offers h)

/-- Over one connection channels count as the same if producer, ship and local strategy are. -/
theorem nodup_map_channels (hids : ∀ a ∈ producers, ∀ b ∈ producers, a.id = b.id → a = b) :
    ((p.channels c producers).map fun ch => (ch.source.id, ch.ship, ch.work)).Nodup := by
  have hconnection : ∀ ch ∈ p.channels c producers, ch.connection = c.id := by
    intro ch hch
    obtain ⟨q, -, hoffer⟩ := (mem_channels_iff hids).1 hch
    exact (carries_of_mem_offers hoffer).connection
  have hdistinct := Channel.pairwise_foldl_pushUnique (producers.flatMap (p.offers c))
  rw [← channels_eq_foldl] at hdistinct
  rw [List.Nodup, List.pairwise_map]
  refine hdistinct.imp_of_mem ?_
  intro a b ha hb hne heq
  simp only [Prod.mk.injEq] at heq
  obtain ⟨hid, hship, hwork⟩ := heq
  simp [Channel.isSame, hid, hship, hwork, hconnection a ha, hconnection b hb] at hne

/-- From producers that their numbers tell apart channels are offered as they should be. -/
theorem wellOffered [Quantity α] (hg : p.graph.Numbered)
    (hp : p.analysis = .complete p.graph p.model) {n : NodeId} (hc : c ∈ (p.graph.node n).inputs)
    (hids : ∀ a ∈ producers, ∀ b ∈ producers, a.id = b.id → a = b) :
    p.WellOffered c producers := by
  have hmem : ∀ ch, ch ∈ p.channels c producers ↔ ∃ q ∈ producers, ch ∈ p.offers c q :=
    fun ch => mem_channels_iff hids
  refine ⟨?_, ?_, ?_, nodup_map_channels hids, hmem, fun a b ha hb => eq_of_isSame hids ha hb, ?_⟩
  · intro q hq
    exact (hmem _).2 ⟨q, hq, List.mem_cons_self⟩
  · intro q hq r hr
    have hoffer : (p.baseChannel c q).realize r ∈ p.offers c q :=
      List.mem_cons_of_mem _ (List.mem_map_of_mem hr)
    have hwell : r.WellFormed := by
      rw [hp] at hr
      exact Graph.wellFormed_of_mem_requestsOver hg p.model hc hr
    obtain ⟨harranged, hplaced⟩ := Channel.isMetBy_realize (c := p.baseChannel c q) hwell
    refine ⟨_, (hmem _).2 ⟨q, hq, hoffer⟩, source_eq_of_mem_offers hoffer, harranged, ?_⟩
    intro hnone
    refine hplaced ?_
    rw [(p.carries_baseChannel c q).forced, hnone, Option.isSome_none]
  · intro ch hch ship hship
    obtain ⟨q, -, hoffer⟩ := (hmem ch).1 hch
    exact (carries_of_mem_offers hoffer).ship ship hship
  · intro q _ ch hoffer
    have hsource := source_eq_of_mem_offers hoffer
    have hcarries := carries_of_mem_offers hoffer
    refine ⟨hsource, ?_⟩
    rw [hcarries.lawful.properties_eq, hsource, hcarries.rescaled]
    rfl

end Problem

/-! ## §4 Searches -/

/-- However far a search got, over every connection the channels from the plans kept for its source
are complete, free of repeats and truthful. -/
theorem kept_plans_well_offered [Quantity α] {o : Optimizer α} {job : Job} {p : Problem α}
    (h : o.prepare job = .ok p) (clock : Nat → Nat) {st : Stage α}
    (hst : { p with clock }.Reachable st) {n : NodeId} {c : Connection}
    (hc : c ∈ (p.graph.node n).inputs) : { p with clock }.WellOffered c (st.kept c.source) := by
  have hp := (o.prepared h).withClock clock
  exact Problem.wellOffered hp.wellFormed.toNumbered hp.analysis_eq hc
    ((hst.consistent hp.wellFormed).kept_id_inj c.source)

/-- A search settles every node of the graph, and something is asked over the connection between a
source and the join. -/
theorem kept_plans_well_offered_keyedOperators : ∃ p,
    Optimizer.ofDefaults.prepare keyedOperators = .ok p ∧ ∃ st, p.Reachable st ∧
      ∃ n, ∃ c ∈ (p.graph.node n).inputs, c.forcedShip = none ∧
        p.analysis.requestsOver c.id ≠ [] ∧ st.kept c.source ≠ [] ∧
          p.WellOffered c (st.kept c.source) := by
  obtain ⟨p, hprepare, hcheck⟩ := exists_ok_of_any
    (r := Optimizer.ofDefaults.prepare keyedOperators)
    (f := fun p => (p.graph.node 2).inputs.any fun c =>
      c.forcedShip.isNone && !(p.analysis.requestsOver c.id).isEmpty) (by decide +kernel)
  simp only [List.any_eq_true, Bool.and_eq_true, Option.isNone_iff_eq_none, Bool.not_eq_true',
    List.isEmpty_eq_false_iff] at hcheck
  obtain ⟨c, hc, hunforced, hasked⟩ := hcheck
  have hp := Optimizer.prepared hprepare
  have hconfig := Optimizer.config_eq hprepare
  obtain ⟨plans, s, hcand⟩ := Problem.exists_candidates_of_unlimited hp (by rw [hconfig]; rfl)
    (by rw [hconfig]; rfl)
  obtain ⟨st, hst, hroot, -, -⟩ := Problem.exists_stage_of_ok hp.wellFormed hcand
  have hdone : c.source ∈ st.done :=
    hst.done_of_reaches hroot (hp.wellFormed.to_root _ (hp.wellFormed.source_lt_size hc))
  exact ⟨p, hprepare, st, hst, 2, c, hc, hunforced, hasked,
    (hst.consistent hp.wellFormed).kept_ne_nil _ hdone,
    kept_plans_well_offered hprepare p.clock hst hc⟩

end FlowPlanner
