/-
FlowPlanner.Proofs.Search.Over — the same strategies over other plans.

What can be done with a channel depends on its producer's plan only through the
node and through what holds of the output. So if other plans of the same nodes with
the same output stand for the producers of a node, the node is offered the same
channels, can run in the same ways and puts out the same (`Channel.upon`). The plans
that stand for others may come from another search, as long as both ask for the same
(`Problem.OffersAlike`); what they cost and how they are numbered does not matter, as
long as the numbers still tell them apart.
-/
import FlowPlanner.Proofs.Analysis.Pricing
import FlowPlanner.Proofs.Search.Channels

namespace FlowPlanner

variable {α : Type}

/-- Two plans of one node leave their data placed and arranged alike. -/
structure Plan.SameOutput (q r : Plan α) : Prop where
  node : q.node = r.node
  placement : q.placement = r.placement
  arrangement : q.arrangement = r.arrangement

theorem Plan.SameOutput.refl (q : Plan α) : q.SameOutput q := ⟨rfl, rfl, rfl⟩

theorem Plan.SameOutput.trans {q r s : Plan α} (h : q.SameOutput r) (h' : r.SameOutput s) :
    q.SameOutput s :=
  ⟨h.node.trans h'.node, h.placement.trans h'.placement, h.arrangement.trans h'.arrangement⟩

theorem Plan.SameOutput.symm {q r : Plan α} (h : q.SameOutput r) : r.SameOutput q :=
  ⟨h.node.symm, h.placement.symm, h.arrangement.symm⟩

namespace Channel

/-! ## §1 Channels -/

theorem shippedPlacement_congr {q r : Plan α} (h : q.SameOutput r) (rescaled : Bool) (ship : Ship) :
    shippedPlacement q rescaled ship = shippedPlacement r rescaled ship := by
  cases ship with
  | forward => simp only [shippedPlacement, h.placement]
  | broadcast => rfl
  | partitionHash fields => rfl

theorem shippedArrangement_congr {q r : Plan α} (h : q.SameOutput r) (rescaled : Bool)
    (ship : Ship) : shippedArrangement q rescaled ship = shippedArrangement r rescaled ship := by
  cases ship with
  | forward => simp only [shippedArrangement, h.arrangement]
  | broadcast => rfl
  | partitionHash fields => rfl

/-- The channel over the plan that stands for its source. -/
def upon (φ : Plan α → Plan α) (c : Channel (Plan α)) : Channel (Plan α) :=
  { c with source := φ c.source }

variable {φ : Plan α → Plan α} {c : Channel (Plan α)}

@[simp] theorem placement_upon : (c.upon φ).placement = c.placement := rfl
@[simp] theorem forced_upon : (c.upon φ).forced = c.forced := rfl

theorem strategy_upon (h : c.source.SameOutput (φ c.source)) :
    (c.upon φ).strategy = c.strategy := by
  unfold strategy upon
  rw [← h.node]

theorem upon_withShip (h : c.source.SameOutput (φ c.source)) (ship : Ship) :
    (c.withShip ship).upon φ = (c.upon φ).withShip ship := by
  unfold withShip upon
  dsimp only
  rw [shippedPlacement_congr h, shippedArrangement_congr h]

theorem upon_groupedOn (keys : List Nat) : (c.groupedOn keys).upon φ = (c.upon φ).groupedOn keys :=
  apply_ite (upon φ) _ _ _

theorem upon_sortedOn (keys : List Nat) : (c.sortedOn keys).upon φ = (c.upon φ).sortedOn keys :=
  apply_ite (upon φ) _ _ _

theorem upon_repartition (h : c.source.SameOutput (φ c.source)) (keys : List Nat) :
    (c.repartition keys).upon φ = (c.upon φ).repartition keys := by
  unfold repartition
  rw [apply_ite (upon φ), upon_withShip h]
  rfl

theorem upon_place (h : c.source.SameOutput (φ c.source)) (placement : Placement) :
    (c.place placement).upon φ = (c.upon φ).place placement := by
  unfold place
  rw [apply_ite (upon φ)]
  cases placement with
  | any => rfl
  | hashed fields =>
    dsimp only
    rw [upon_withShip h]
    rfl
  | replicated =>
    dsimp only
    rw [upon_withShip h]
    rfl

theorem upon_arrange (arrangement : Arrangement) :
    (c.arrange arrangement).upon φ = (c.upon φ).arrange arrangement :=
  apply_ite (upon φ) _ _ _

theorem upon_realize (h : c.source.SameOutput (φ c.source)) (r : Request α) :
    (c.realize r).upon φ = (c.upon φ).realize r := by
  unfold realize
  rw [upon_arrange, upon_place h]

theorem upon_forward {q : Plan α} (h : q.SameOutput (φ q)) (connection : ConnectionId) :
    (forward q connection).upon φ = forward (φ q) connection := by
  unfold forward upon
  dsimp only
  rw [h.placement, h.arrangement]

/-- Where plans stand for plans and numbers still tell them apart, the same channels repeat. -/
theorem map_foldl_pushUnique : ∀ {offers found : List (Channel (Plan α))},
    (∀ a ∈ found ++ offers, ∀ b ∈ found ++ offers, (a.upon φ).isSame (b.upon φ) = a.isSame b) →
      (offers.foldl pushUnique found).map (upon φ) =
        (offers.map (upon φ)).foldl pushUnique (found.map (upon φ))
  | [], _, _ => rfl
  | d :: offers, found, h => by
    have hpush : (pushUnique found d).map (upon φ) =
        pushUnique (found.map (upon φ)) (d.upon φ) := by
      have hany : (found.map (upon φ)).any (·.isSame (d.upon φ)) = found.any (·.isSame d) := by
        rw [List.any_map, Bool.eq_iff_iff, List.any_eq_true, List.any_eq_true]
        refine exists_congr fun a => and_congr_right fun ha => ?_
        rw [Function.comp_apply, h a (by simp [ha]) d (by simp)]
      unfold pushUnique
      rw [hany, apply_ite (List.map (upon φ)), List.map_append]
      rfl
    have hsub : ∀ a ∈ pushUnique found d ++ offers, a ∈ found ++ d :: offers := by
      intro a ha
      rw [List.append_cons]
      refine List.mem_append.2 ((List.mem_append.1 ha).imp_left fun ha => ?_)
      unfold pushUnique at ha
      split at ha
      · exact List.mem_append_left _ ha
      · exact ha
    rw [List.foldl_cons, List.map_cons, List.foldl_cons, ← hpush]
    exact map_foldl_pushUnique fun a ha b hb => h a (hsub a ha) b (hsub b hb)

end Channel

namespace Problem

/-- Two problems ask for the same over a connection, at whatever price, and have it cross the same
change of parallelism. -/
structure OffersAlike (p p' : Problem α) (c : Connection) : Prop where
  source : (p'.graph.node c.source).parallelism = (p.graph.node c.source).parallelism
  target : (p'.graph.node c.target).parallelism = (p.graph.node c.target).parallelism
  requests : (p'.analysis.requestsOver c.id).map Request.unpriced =
    (p.analysis.requestsOver c.id).map Request.unpriced

theorem OffersAlike.refl (p : Problem α) (c : Connection) : p.OffersAlike p c := ⟨rfl, rfl, rfl⟩

variable {p p' : Problem α} {φ : Plan α → Plan α} {c : Connection}

theorem upon_baseChannel (halike : p.OffersAlike p' c) {q : Plan α} (h : q.SameOutput (φ q)) :
    (p.baseChannel c q).upon φ = p'.baseChannel c (φ q) := by
  have hscaled : (if (p.graph.node c.source).parallelism == (p.graph.node c.target).parallelism
        then Channel.forward q c.id else (Channel.forward q c.id).rescale).upon φ =
      if (p.graph.node c.source).parallelism == (p.graph.node c.target).parallelism
        then Channel.forward (φ q) c.id else (Channel.forward (φ q) c.id).rescale := by
    rw [apply_ite (Channel.upon φ), Channel.upon_forward h]
    unfold Channel.rescale
    rw [Channel.upon_withShip h, ← Channel.upon_forward h]
    rfl
  unfold baseChannel
  dsimp only
  rw [halike.source, halike.target, ← hscaled]
  cases c.forcedShip with
  | none => rfl
  | some ship =>
    have hsource : (if (p.graph.node c.source).parallelism == (p.graph.node c.target).parallelism
        then Channel.forward q c.id else (Channel.forward q c.id).rescale).source = q := by
      split <;> rfl
    unfold Channel.force
    dsimp only
    rw [← Channel.upon_withShip (by rw [hsource]; exact h)]
    rfl

/-- A plan with the same output is offered the same channels. -/
theorem map_offers (halike : p.OffersAlike p' c) {q : Plan α} (h : q.SameOutput (φ q)) :
    (p.offers c q).map (·.upon φ) = p'.offers c (φ q) := by
  have hsource : (p.baseChannel c q).source = q := congrArg Prod.fst (p.route_baseChannel c q)
  have hrealize : ∀ (base : Channel (Plan α)) (rs : List (Request α)), rs.map base.realize =
      (rs.map Request.unpriced).map base.realize := by
    intro base rs
    rw [List.map_map]
    rfl
  unfold offers
  rw [List.map_cons, List.map_map, hrealize (p'.baseChannel c (φ q)), halike.requests, ← hrealize,
    ← upon_baseChannel halike h]
  congr 1
  refine List.map_congr_left ?_
  intro r _
  exact Channel.upon_realize (by rw [hsource]; exact h) r

/-- Plans with the same output that stay apart are offered the same channels. -/
theorem map_channels (halike : p.OffersAlike p' c) {producers : List (Plan α)}
    (hsame : ∀ q ∈ producers, q.SameOutput (φ q))
    (hids : ∀ q ∈ producers, ∀ r ∈ producers, (φ q).id = (φ r).id ↔ q.id = r.id) :
    (p.channels c producers).map (·.upon φ) = p'.channels c (producers.map φ) := by
  have hoffers : (producers.map φ).flatMap (p'.offers c) =
      (producers.flatMap (p.offers c)).map (·.upon φ) := by
    rw [List.flatMap_map, List.map_flatMap]
    exact List.flatMap_congr fun q hq => (map_offers halike (hsame q hq)).symm
  rw [channels_eq_foldl, channels_eq_foldl, hoffers]
  refine Channel.map_foldl_pushUnique ?_
  intro a ha b hb
  obtain ⟨q, hq, ha⟩ := List.mem_flatMap.1 ha
  obtain ⟨r, hr, hb⟩ := List.mem_flatMap.1 hb
  have hid := hids q hq r hr
  rw [← source_eq_of_mem_offers ha, ← source_eq_of_mem_offers hb] at hid
  unfold Channel.isSame
  have hsource : ((a.upon φ).source.id == (b.upon φ).source.id) =
      (a.source.id == b.source.id) := by
    rw [Bool.eq_iff_iff, beq_iff_eq, beq_iff_eq]
    exact hid
  rw [hsource]
  rfl

end Problem

/-! ## §2 Alternatives -/

/-- The alternative over the plans that stand for the ones it reads. -/
def Alternative.upon (φ : Plan α → Plan α) (alt : Alternative α) : Alternative α :=
  ⟨alt.driver, alt.inputs.map (·.upon φ)⟩

theorem upon_coPartition {φ : Plan α → Plan α} {a b : Channel (Plan α)}
    (ha : a.source.SameOutput (φ a.source)) (hb : b.source.SameOutput (φ b.source))
    (firstKeys secondKeys : List Nat) :
    coPartition (a.upon φ) (b.upon φ) firstKeys secondKeys =
      ((coPartition a b firstKeys secondKeys).1.upon φ,
        (coPartition a b firstKeys secondKeys).2.upon φ) := by
  unfold coPartition
  rw [Channel.placement_upon, Channel.placement_upon]
  split
  · rfl
  · rw [Channel.upon_repartition ha, Channel.upon_repartition hb]

namespace Node

variable {n : Node} {φ : Plan α → Plan α}

theorem reduceAlternatives_upon (c : Channel (Plan α)) :
    n.reduceAlternatives (c.upon φ) = (n.reduceAlternatives c).map (·.upon φ) := by
  unfold reduceAlternatives
  dsimp only
  rw [Channel.placement_upon, Channel.forced_upon]
  split
  · rfl
  · rw [← Channel.upon_groupedOn]
    rfl

theorem joinAlternatives_upon {a b : Channel (Plan α)}
    (ha : a.source.SameOutput (φ a.source)) (hb : b.source.SameOutput (φ b.source)) :
    n.joinAlternatives (a.upon φ) (b.upon φ) = (n.joinAlternatives a b).map (·.upon φ) := by
  have hdrivers : ∀ x y : Channel (Plan α),
      (n.joinDrivers.map fun driver =>
        if driver == .sortMerge then
          (⟨driver, [(x.upon φ).sortedOn (n.keyList 0), (y.upon φ).sortedOn (n.keyList 1)]⟩ :
            Alternative α)
        else ⟨driver, [x.upon φ, y.upon φ]⟩) =
      (n.joinDrivers.map fun driver =>
        if driver == .sortMerge then
          (⟨driver, [x.sortedOn (n.keyList 0), y.sortedOn (n.keyList 1)]⟩ : Alternative α)
        else ⟨driver, [x, y]⟩).map (·.upon φ) := by
    intro x y
    rw [List.map_map]
    refine List.map_congr_left ?_
    intro driver _
    rw [Function.comp_apply, apply_ite (Alternative.upon φ), ← Channel.upon_sortedOn,
      ← Channel.upon_sortedOn]
    rfl
  unfold joinAlternatives
  dsimp only
  rw [Channel.placement_upon, Channel.placement_upon, Channel.forced_upon, Channel.forced_upon]
  split
  · rfl
  · split
    · exact hdrivers a b
    · rw [upon_coPartition ha hb]
      exact hdrivers _ _

theorem coGroupAlternative_upon {a b : Channel (Plan α)}
    (ha : a.source.SameOutput (φ a.source)) (hb : b.source.SameOutput (φ b.source)) :
    n.coGroupAlternative (a.upon φ) (b.upon φ) = (n.coGroupAlternative a b).upon φ := by
  unfold coGroupAlternative
  rw [upon_coPartition ha hb]
  dsimp only
  rw [← Channel.upon_groupedOn, ← Channel.upon_groupedOn]
  rfl

variable [Quantity α] {sizeOf sizeOf' : NodeId → Option α}

theorem crossAlternative_upon {a b : Channel (Plan α)}
    (ha : a.source.SameOutput (φ a.source)) (hb : b.source.SameOutput (φ b.source))
    (hsa : sizeOf' a.source.node = sizeOf a.source.node)
    (hsb : sizeOf' b.source.node = sizeOf b.source.node) :
    n.crossAlternative sizeOf' (a.upon φ) (b.upon φ) =
      (n.crossAlternative sizeOf a b).upon φ := by
  have hcopies : n.copiesSecond sizeOf' (a.upon φ) (b.upon φ) = n.copiesSecond sizeOf a b := by
    unfold copiesSecond isSecondSmaller Channel.upon
    dsimp only
    rw [← ha.node, ← hb.node, hsa, hsb]
  unfold crossAlternative
  rw [hcopies, Channel.placement_upon, Channel.placement_upon, Channel.forced_upon,
    Channel.forced_upon, ← Channel.upon_withShip ha, ← Channel.upon_withShip hb]
  split
  · rfl
  · split
    · rfl
    · split
      · split <;> rfl
      · split <;> rfl

/-- A node can run over other plans with the same output as it can over the given ones. -/
theorem alternatives_upon {t : List (Channel (Plan α))}
    (h : ∀ c ∈ t, c.source.SameOutput (φ c.source))
    (hsize : ∀ c ∈ t, sizeOf' c.source.node = sizeOf c.source.node) :
    n.alternatives sizeOf' (t.map (·.upon φ)) = (n.alternatives sizeOf t).map (·.upon φ) := by
  unfold alternatives
  cases n.kind with
  | sinkJoiner => rfl
  | operator kind =>
    match kind, t, h, hsize with
    | .source _, _, _, _ => rfl
    | .map, _, _, _ => rfl
    | .sink, _, _, _ => rfl
    | .union, _, _, _ => rfl
    | .reduce, [], _, _ => rfl
    | .reduce, c :: _, _, _ => exact reduceAlternatives_upon c
    | .equiJoin, [], _, _ => rfl
    | .equiJoin, [_], _, _ => rfl
    | .equiJoin, a :: b :: _, h, _ => exact joinAlternatives_upon (h a (by simp)) (h b (by simp))
    | .cross, [], _, _ => rfl
    | .cross, [_], _, _ => rfl
    | .cross, a :: b :: _, h, hsize =>
      exact congrArg (fun alt => [alt]) (crossAlternative_upon (h a (by simp)) (h b (by simp))
        (hsize a (by simp)) (hsize b (by simp)))
    | .coGroup, [], _, _ => rfl
    | .coGroup, [_], _, _ => rfl
    | .coGroup, a :: b :: _, h, _ =>
      exact congrArg (fun alt => [alt]) (coGroupAlternative_upon (h a (by simp)) (h b (by simp)))

omit [Quantity α] in
theorem contractOutput_congr {cs ds : List (Channel (Plan α))}
    (h : cs.map (·.properties) = ds.map (·.properties)) (keepOrder : Bool) :
    n.contractOutput cs keepOrder = n.contractOutput ds keepOrder := by
  have hany : ∀ cs : List (Channel (Plan α)), cs.any (fun i => !i.placement.isReplicated) =
      (cs.map (·.properties)).any fun x => !x.1.isReplicated := by
    intro cs
    rw [List.any_map]
    rfl
  have hget : cs[n.contract.input]?.map (·.properties) =
      ds[n.contract.input]?.map (·.properties) := by
    rw [← List.getElem?_map, ← List.getElem?_map, h]
  unfold contractOutput
  rw [hany, hany, h]
  cases hc : cs[n.contract.input]? with
  | none =>
    rw [hc, Option.map_none, eq_comm, Option.map_eq_none_iff] at hget
    rw [hget]
  | some c =>
    rw [hc, Option.map_some, eq_comm, Option.map_eq_some_iff] at hget
    obtain ⟨d, hd, hproperties⟩ := hget
    obtain ⟨hplacement, harrangement⟩ := Prod.mk.inj hproperties
    rw [hd]
    dsimp only
    rw [hplacement, harrangement]

omit [Quantity α] in
theorem unionPlacement_congr {cs ds : List (Channel (Plan α))}
    (h : cs.map (·.properties) = ds.map (·.properties)) :
    unionPlacement cs = unionPlacement ds := by
  have hunion : ∀ cs : List (Channel (Plan α)), unionPlacement cs =
      match cs.map (·.properties) with
      | [] => .any
      | first :: rest => if rest.all (·.1 == first.1) then first.1 else .any := by
    intro cs
    cases cs with
    | nil => rfl
    | cons c cs =>
      rw [List.map_cons]
      dsimp only
      rw [List.all_map]
      rfl
  rw [hunion, hunion, h]

omit [Quantity α] in
/-- What a node puts out depends on its driver and on what holds of its inputs. -/
theorem output_congr {alt alt' : Alternative α} (hdriver : alt.driver = alt'.driver)
    (hinputs : alt.inputs.map (·.properties) = alt'.inputs.map (·.properties)) :
    n.output alt = n.output alt' := by
  unfold output
  rw [contractOutput_congr hinputs, contractOutput_congr hinputs, contractOutput_congr hinputs,
    unionPlacement_congr hinputs, hdriver]
  cases n.kind with
  | sinkJoiner => rfl
  | operator kind =>
    cases kind with
    | sink =>
      obtain ⟨driver, cs⟩ := alt
      obtain ⟨driver', ds⟩ := alt'
      cases cs with
      | nil =>
        obtain rfl : ds = [] := List.map_eq_nil_iff.1 hinputs.symm
        rfl
      | cons c cs =>
        cases ds with
        | nil => simp at hinputs
        | cons d ds => exact (List.cons.inj hinputs).1
    | _ => rfl

omit [Quantity α] in
/-- What a node puts out does not depend on which plans it reads. -/
theorem output_upon (alt : Alternative α) : n.output (alt.upon φ) = n.output alt := by
  refine output_congr rfl ?_
  show (alt.inputs.map (·.upon φ)).map (·.properties) = alt.inputs.map (·.properties)
  rw [List.map_map]
  rfl

end Node

/-! ## §3 Everything that a plan needs -/

mutual

/-- The plan that results when a function is applied to all plans that a plan needs, producers
first, and to the plan itself. -/
def Plan.throughout (f : Plan α → Plan α) : Plan α → Plan α
  | ⟨id, node, name, driver, inputs, placement, arrangement, own, cumulative, choices⟩ =>
    f ⟨id, node, name, driver, throughoutAll f inputs, placement, arrangement, own, cumulative,
      choices⟩
termination_by structural p => p

/-- The channels with a function applied throughout their sources. -/
def throughoutAll (f : Plan α → Plan α) : List (Channel (Plan α)) → List (Channel (Plan α))
  | [] => []
  | c :: cs => throughoutChannel f c :: throughoutAll f cs
termination_by structural cs => cs

/-- The channel with a function applied throughout its source. -/
def throughoutChannel (f : Plan α → Plan α) : Channel (Plan α) → Channel (Plan α)
  | ⟨source, connection, ship, forced, rescaled, work, placement, arrangement⟩ =>
    ⟨source.throughout f, connection, ship, forced, rescaled, work, placement, arrangement⟩
termination_by structural c => c

end

theorem Plan.throughout_eq (f : Plan α → Plan α) (q : Plan α) :
    q.throughout f = f { q with inputs := q.inputs.map (·.upon (throughout f)) } := by
  have hall : ∀ cs : List (Channel (Plan α)),
      throughoutAll f cs = cs.map (·.upon (throughout f)) := by
    intro cs
    induction cs with
    | nil => rfl
    | cons c cs ih =>
      rw [List.map_cons, ← ih]
      cases c
      rfl
  rw [← hall]
  cases q
  rfl

/-- What holds of a plan if it holds of all that the plan reads holds of every plan. -/
theorem Plan.induct {P : Plan α → Prop} (h : ∀ q, (∀ c ∈ q.inputs, P c.source) → P q)
    (q : Plan α) : P q := by
  refine h q fun c hc => ?_
  have hlt : sizeOf c.source < sizeOf q := by
    have hchannel := List.sizeOf_lt_of_mem hc
    have hsource : sizeOf c.source < sizeOf c := by
      cases c
      decreasing_trivial
    have hinputs : sizeOf q.inputs < sizeOf q := by
      cases q
      decreasing_trivial
    omega
  exact Plan.induct h c.source
termination_by sizeOf q

end FlowPlanner
