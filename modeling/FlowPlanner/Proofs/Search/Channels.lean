/-
FlowPlanner.Proofs.Search.Channels — the channels that a search offers.

Between a producer and a driver a channel is re-shipped and sorted. That never
changes where it comes from (`Channel.route`) nor a ship strategy that a hint
decided, and always leaves the properties that its ship and local strategies give
(`Channel.Lawful`): these are the three parts of `Channel.Becomes`. So two channels
from one plan that ship and sort alike are the same channel, and leaving out
repeats loses nothing (`Problem.mem_channels_iff`).
-/
import FlowPlanner.Search
import Mathlib.Data.List.Basic

namespace FlowPlanner

variable {α : Type}

namespace Channel

/-! ## §1 Where a channel comes from and what it does -/

/-- The plan read, the connection, whether a hint decides, and whether the parallelism changes. -/
def route (c : Channel (Plan α)) : Plan α × ConnectionId × Bool × Bool :=
  (c.source, c.connection, c.forced, c.rescaled)

/-- What a channel does, whichever plan it reads. -/
def strategy (c : Channel (Plan α)) : NodeId × ConnectionId × Ship × LocalStrategy :=
  (c.source.node, c.connection, c.ship, c.work)

/-- What holds of the data of a channel. -/
def properties (c : Channel (Plan α)) : Placement × Arrangement := (c.placement, c.arrangement)

theorem source_eq_of_route {c d : Channel (Plan α)} (h : c.route = d.route) :
    c.source = d.source := congrArg Prod.fst h

theorem forced_eq_of_route {c d : Channel (Plan α)} (h : c.route = d.route) :
    c.forced = d.forced := congrArg (·.2.2.1) h

/-! ## §2 What holds of its data -/

/-- The data of a channel has the properties that its ship and local strategies give it. -/
structure Lawful (c : Channel (Plan α)) : Prop where
  placement : c.placement = shippedPlacement c.source c.rescaled c.ship
  arrangement : c.arrangement = match c.work with
    | .none => shippedArrangement c.source c.rescaled c.ship
    | .sort fields => .sorted fields

theorem lawful_forward (source : Plan α) (connection : ConnectionId) :
    (forward source connection).Lawful := ⟨rfl, rfl⟩

theorem lawful_withShip (c : Channel (Plan α)) (ship : Ship) : (c.withShip ship).Lawful :=
  ⟨rfl, rfl⟩

theorem lawful_rescale (c : Channel (Plan α)) : c.rescale.Lawful := ⟨rfl, rfl⟩

theorem lawful_force (c : Channel (Plan α)) (ship : Ship) : (c.force ship).Lawful := ⟨rfl, rfl⟩

/-- Channels of one route that ship and sort alike are equal. -/
theorem Lawful.eq_of_route {c d : Channel (Plan α)} (hc : c.Lawful) (hd : d.Lawful)
    (hroute : c.route = d.route) (hship : c.ship = d.ship) (hwork : c.work = d.work) : c = d := by
  obtain ⟨source, connection, ship, forced, rescaled, work, placement, arrangement⟩ := c
  obtain ⟨source', connection', ship', forced', rescaled', work', placement', arrangement'⟩ := d
  obtain ⟨hp, ha⟩ := hc
  obtain ⟨hp', ha'⟩ := hd
  simp only [route, Prod.mk.injEq] at hroute
  obtain ⟨rfl, rfl, rfl, rfl⟩ := hroute
  obtain rfl : ship = ship' := hship
  obtain rfl : work = work' := hwork
  obtain rfl : placement = placement' := hp.trans hp'.symm
  obtain rfl : arrangement = arrangement' := ha.trans ha'.symm
  rfl

/-! ## §3 On the way to a driver -/

/-- What may become of a channel: it comes from where it did, is shipped in another way only if no
hint decides, and its data has the properties that follow. -/
structure Becomes (c d : Channel (Plan α)) : Prop where
  route : d.route = c.route
  ship : c.forced = true → d.ship = c.ship
  lawful : c.Lawful → d.Lawful

namespace Becomes

variable {c d e : Channel (Plan α)}

theorem refl (c : Channel (Plan α)) : c.Becomes c := ⟨rfl, fun _ => rfl, id⟩

theorem trans (h : c.Becomes d) (h' : d.Becomes e) : c.Becomes e :=
  ⟨h'.route.trans h.route,
    fun hforced => (h'.ship ((forced_eq_of_route h.route).trans hforced)).trans (h.ship hforced),
    fun hlawful => h'.lawful (h.lawful hlawful)⟩

theorem withShip (h : c.forced = false) (ship : Ship) : c.Becomes (c.withShip ship) :=
  ⟨rfl, fun hforced => by simp [h] at hforced, fun _ => lawful_withShip c ship⟩

theorem sort (c : Channel (Plan α)) (fields : List Nat) :
    c.Becomes (c.withLocal (.sort fields)) :=
  ⟨rfl, fun _ => rfl, fun h => ⟨h.placement, rfl⟩⟩

theorem groupedOn (c : Channel (Plan α)) (keys : List Nat) : c.Becomes (c.groupedOn keys) := by
  unfold Channel.groupedOn
  split
  · exact refl c
  · exact sort c keys

theorem sortedOn (c : Channel (Plan α)) (keys : List Nat) : c.Becomes (c.sortedOn keys) := by
  unfold Channel.sortedOn
  split
  · exact refl c
  · exact sort c keys

theorem repartition (c : Channel (Plan α)) (keys : List Nat) :
    c.Becomes (c.repartition keys) := by
  unfold Channel.repartition
  split
  · exact refl c
  · rename_i h
    rw [Bool.or_eq_true, not_or, Bool.not_eq_true] at h
    exact withShip h.1 _

theorem place (c : Channel (Plan α)) (placement : Placement) : c.Becomes (c.place placement) := by
  unfold Channel.place
  split
  · exact refl c
  · rename_i h
    rw [Bool.or_eq_true, not_or, Bool.not_eq_true] at h
    cases placement with
    | any => exact refl c
    | hashed fields => exact withShip h.1 _
    | replicated => exact withShip h.1 _

theorem arrange (c : Channel (Plan α)) (arrangement : Arrangement) :
    c.Becomes (c.arrange arrangement) := by
  unfold Channel.arrange
  split
  · exact refl c
  · exact sort c _

theorem realize (c : Channel (Plan α)) (r : Request α) : c.Becomes (c.realize r) :=
  (place c r.placement).trans (arrange _ r.arrangement)

/-- What became of some channels comes from where they did. -/
theorem map_route {cs ds : List (Channel (Plan α))} (h : List.Forall₂ Becomes cs ds) :
    ds.map (·.route) = cs.map (·.route) := by
  induction h with
  | nil => rfl
  | cons h _ ih => rw [List.map_cons, List.map_cons, h.route, ih]

end Becomes

/-! ## §4 Lists without repeats -/

/-- When the channels that count as the same are equal, leaving out repeats loses none. -/
theorem mem_foldl_pushUnique {c : Channel (Plan α)} :
    ∀ {offers found : List (Channel (Plan α))},
      (∀ a ∈ found ++ offers, ∀ b ∈ found ++ offers, a.isSame b = true → a = b) →
        (c ∈ offers.foldl pushUnique found ↔ c ∈ found ++ offers)
  | [], found, _ => by simp
  | d :: offers, found, h => by
    rw [List.foldl_cons]
    have hmem : ∀ a, a ∈ pushUnique found d ↔ a ∈ found ∨ a = d := by
      intro a
      unfold pushUnique
      split
      · rename_i hany
        obtain ⟨e, he, hsame⟩ := List.any_eq_true.1 hany
        obtain rfl : e = d :=
          h e (List.mem_append_left _ he) d (List.mem_append_right _ List.mem_cons_self) hsame
        constructor
        · exact .inl
        · rintro (ha | rfl)
          · exact ha
          · exact he
      · rw [List.mem_append, List.mem_singleton]
    have hsub : ∀ a, a ∈ pushUnique found d ++ offers ↔ a ∈ found ++ d :: offers := by
      intro a
      rw [List.mem_append, hmem, List.mem_append, List.mem_cons, or_assoc]
    rw [mem_foldl_pushUnique fun a ha b hb => h a ((hsub a).1 ha) b ((hsub b).1 hb), hsub]

theorem isSame_self (c : Channel (Plan α)) : c.isSame c = true := by
  unfold isSame
  simp

/-- A repeat is left out even if it was met much earlier. -/
theorem pairwise_foldl_pushUnique (offers : List (Channel (Plan α))) :
    (offers.foldl pushUnique []).Pairwise fun a b => a.isSame b = false := by
  refine List.foldlRecOn
    (motive := List.Pairwise fun a b : Channel (Plan α) => a.isSame b = false) _ _ .nil ?_
  intro found h c _
  unfold pushUnique
  split
  · exact h
  · rename_i hnone
    rw [List.any_eq_true] at hnone
    refine List.pairwise_append.2 ⟨h, List.pairwise_singleton _ _, ?_⟩
    intro a ha b hb
    rw [List.mem_singleton.1 hb]
    exact Bool.eq_false_iff.2 fun hsame => hnone ⟨a, ha, hsame⟩

theorem nodup_foldl_pushUnique (offers : List (Channel (Plan α))) :
    (offers.foldl pushUnique []).Nodup := by
  refine (pairwise_foldl_pushUnique offers).imp ?_
  rintro a b hne rfl
  rw [isSame_self] at hne
  simp at hne

end Channel

namespace Problem

variable {p : Problem α}

/-! ## §5 The channels of a connection -/

/-- The plain channel from a plan, and one per request. -/
def offers (p : Problem α) (c : Connection) (producer : Plan α) : List (Channel (Plan α)) :=
  p.baseChannel c producer ::
    (p.analysis.requestsOver c.id).map (p.baseChannel c producer).realize

theorem route_baseChannel (p : Problem α) (c : Connection) (producer : Plan α) :
    (p.baseChannel c producer).route =
      (producer, c.id, c.forcedShip.isSome,
        !((p.graph.node c.source).parallelism == (p.graph.node c.target).parallelism)) := by
  unfold baseChannel
  dsimp only
  split <;> split <;> simp_all [Channel.route, Channel.force, Channel.withShip, Channel.rescale,
    Channel.forward]

theorem lawful_baseChannel (p : Problem α) (c : Connection) (producer : Plan α) :
    (p.baseChannel c producer).Lawful := by
  unfold baseChannel
  dsimp only
  split
  · exact Channel.lawful_force _ _
  · split
    · exact Channel.lawful_forward producer c.id
    · exact Channel.lawful_rescale _

theorem strategy_baseChannel (p : Problem α) (c : Connection) (q : Plan α) :
    (p.baseChannel c q).strategy = (q.node, c.id, c.forcedShip.getD .forward, .none) := by
  unfold baseChannel
  dsimp only
  split
  · rename_i hforced
    rw [hforced]
    split <;> rfl
  · rename_i hforced
    rw [hforced]
    split <;> rfl

/-- The channel realizes the connection as a hint and the parallelism at both ends demand, and its
data has the properties that follow. -/
structure Carries (p : Problem α) (ch : Channel (Plan α)) (c : Connection) : Prop where
  route : ch.route = (ch.source, c.id, c.forcedShip.isSome,
    !((p.graph.node c.source).parallelism == (p.graph.node c.target).parallelism))
  ship : ∀ ship, c.forcedShip = some ship → ch.ship = ship
  lawful : ch.Lawful

theorem Carries.connection {ch : Channel (Plan α)} {c : Connection} (h : p.Carries ch c) :
    ch.connection = c.id := congrArg (·.2.1) h.route

theorem Carries.forced {ch : Channel (Plan α)} {c : Connection} (h : p.Carries ch c) :
    ch.forced = c.forcedShip.isSome := congrArg (·.2.2.1) h.route

theorem Carries.rescaled {ch : Channel (Plan α)} {c : Connection} (h : p.Carries ch c) :
    ch.rescaled = !((p.graph.node c.source).parallelism == (p.graph.node c.target).parallelism) :=
  congrArg (·.2.2.2) h.route

theorem carries_baseChannel (p : Problem α) (c : Connection) (producer : Plan α) :
    p.Carries (p.baseChannel c producer) c := by
  have hroute := p.route_baseChannel c producer
  refine ⟨?_, ?_, p.lawful_baseChannel c producer⟩
  · rw [hroute, show (p.baseChannel c producer).source = producer from congrArg Prod.fst hroute]
  · intro ship hship
    have hstrategy : (p.baseChannel c producer).ship = c.forcedShip.getD .forward :=
      congrArg (·.2.2.1) (p.strategy_baseChannel c producer)
    rw [hstrategy, hship, Option.getD_some]

/-- What becomes of a channel realizes the connection as the channel does. -/
theorem Carries.becomes {ch d : Channel (Plan α)} {c : Connection} (h : p.Carries ch c)
    (hd : ch.Becomes d) : p.Carries d c := by
  refine ⟨?_, ?_, hd.lawful h.lawful⟩
  · rw [hd.route, h.route, Channel.source_eq_of_route hd.route]
  · intro ship hship
    rw [hd.ship (by rw [h.forced, hship, Option.isSome_some]), h.ship ship hship]

/-- Every offer comes from the plain channel. -/
theorem becomes_of_mem_offers {c : Connection} {producer : Plan α} {ch : Channel (Plan α)}
    (h : ch ∈ p.offers c producer) : (p.baseChannel c producer).Becomes ch := by
  rcases List.mem_cons.1 h with rfl | h
  · exact .refl _
  · obtain ⟨r, -, rfl⟩ := List.mem_map.1 h
    exact .realize _ r

theorem source_eq_of_mem_offers {c : Connection} {producer : Plan α} {ch : Channel (Plan α)}
    (h : ch ∈ p.offers c producer) : ch.source = producer :=
  congrArg Prod.fst ((becomes_of_mem_offers h).route.trans (p.route_baseChannel c producer))

theorem channels_eq_foldl (p : Problem α) (c : Connection) (producers : List (Plan α)) :
    p.channels c producers = (producers.flatMap (p.offers c)).foldl Channel.pushUnique [] := by
  rw [List.foldl_flatMap]
  rfl

theorem nodup_channels (p : Problem α) (c : Connection) (producers : List (Plan α)) :
    (p.channels c producers).Nodup := by
  rw [channels_eq_foldl]
  exact Channel.nodup_foldl_pushUnique _

/-- Offers that count as the same are equal, as long as numbers tell their producers apart. -/
theorem eq_of_isSame {c : Connection} {producers : List (Plan α)}
    (hids : ∀ a ∈ producers, ∀ b ∈ producers, a.id = b.id → a = b) {a b : Channel (Plan α)}
    (ha : ∃ q ∈ producers, a ∈ p.offers c q) (hb : ∃ q ∈ producers, b ∈ p.offers c q)
    (hsame : a.isSame b = true) : a = b := by
  obtain ⟨pa, hpa, ha⟩ := ha
  obtain ⟨pb, hpb, hb⟩ := hb
  simp only [Channel.isSame, Bool.and_eq_true, beq_iff_eq] at hsame
  obtain ⟨⟨⟨hid, -⟩, hship⟩, hwork⟩ := hsame
  obtain rfl : pa = pb := hids pa hpa pb hpb (by
    rw [← source_eq_of_mem_offers ha, ← source_eq_of_mem_offers hb]
    exact hid)
  have ha := becomes_of_mem_offers ha
  have hb := becomes_of_mem_offers hb
  have hbase := p.lawful_baseChannel c pa
  exact (ha.lawful hbase).eq_of_route (hb.lawful hbase) (ha.route.trans hb.route.symm) hship hwork

/-- Every offer of every producer is a channel, and nothing else is. -/
theorem mem_channels_iff {c : Connection} {producers : List (Plan α)}
    (hids : ∀ a ∈ producers, ∀ b ∈ producers, a.id = b.id → a = b) {ch : Channel (Plan α)} :
    ch ∈ p.channels c producers ↔ ∃ producer ∈ producers, ch ∈ p.offers c producer := by
  rw [channels_eq_foldl, Channel.mem_foldl_pushUnique, List.nil_append, List.mem_flatMap]
  rw [List.nil_append]
  intro a ha b hb hsame
  exact eq_of_isSame hids (List.mem_flatMap.1 ha) (List.mem_flatMap.1 hb) hsame

end Problem

end FlowPlanner
