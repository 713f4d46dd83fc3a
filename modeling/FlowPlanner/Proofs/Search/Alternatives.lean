/-
FlowPlanner.Proofs.Search.Alternatives — how nodes run on their channels.

An operator may re-ship and sort what it is given, but it reads the plans it was
given over the connections it was given, and leaves the ship strategies that hints
decide (`becomes_of_mem_alternatives`). And
no operator turns down all channels over given plans: a reduce and a join accept
the channels that establish what they ask for themselves (`exists_picks`).
-/
import FlowPlanner.Proofs.Analysis.Demand
import FlowPlanner.Proofs.Search.Channels
import FlowPlanner.Proofs.Search.Combine

namespace FlowPlanner

variable {α : Type}

/-! ## §1 What an alternative reads -/

/-- The kind runs in one way, whatever the channels are. -/
def NodeKind.runsOneWay : NodeKind → Bool
  | .operator .reduce | .operator .equiJoin => false
  | _ => true

theorem Channel.Becomes.coPartition (a b : Channel (Plan α)) (firstKeys secondKeys : List Nat) :
    a.Becomes (FlowPlanner.coPartition a b firstKeys secondKeys).1 ∧
      b.Becomes (FlowPlanner.coPartition a b firstKeys secondKeys).2 := by
  unfold FlowPlanner.coPartition
  split
  · exact ⟨.refl a, .refl b⟩
  · exact ⟨.repartition a firstKeys, .repartition b secondKeys⟩

/-- A node has as many inputs as its kind has positions, unless it is a union. -/
theorem NodeKind.Accepts.length {kind : Kind} {keys : List (List Nat)} {positions : List Nat}
    (h : (NodeKind.operator kind).Accepts keys positions) (hkind : kind.isUnion = false) :
    positions.length = kind.arity := by
  rw [h.1 hkind, List.length_range]

namespace Node

variable {n : Node} {t : List (Channel (Plan α))} {alt : Alternative α}

theorem becomes_of_mem_reduceAlternatives {c : Channel (Plan α)}
    (h : alt ∈ n.reduceAlternatives c) : List.Forall₂ Channel.Becomes [c] alt.inputs := by
  unfold reduceAlternatives at h
  dsimp only at h
  split at h
  · simp at h
  · obtain rfl := List.mem_singleton.1 h
    exact .cons (.groupedOn c _) .nil

/-- The channels that a join works on, before any sort: as they are if exactly one is replicated,
else partitioned alike. -/
def joinPair (n : Node) (a b : Channel (Plan α)) : Channel (Plan α) × Channel (Plan α) :=
  if a.placement.isReplicated != b.placement.isReplicated then (a, b)
  else coPartition a b (n.keyList 0) (n.keyList 1)

/-- A join runs with one of its drivers, and sorts its channels for a sort-merge only. -/
theorem spec_of_mem_joinAlternatives {a b : Channel (Plan α)}
    (h : alt ∈ n.joinAlternatives a b) : alt.driver ∈ n.joinDrivers ∧
      alt.inputs = if alt.driver = .sortMerge then
          [(n.joinPair a b).1.sortedOn (n.keyList 0), (n.joinPair a b).2.sortedOn (n.keyList 1)]
        else [(n.joinPair a b).1, (n.joinPair a b).2] := by
  unfold joinAlternatives at h
  dsimp only at h
  split at h
  · simp at h
  · obtain ⟨driver, hdriver, rfl⟩ := List.mem_map.1 h
    unfold joinPair
    refine ⟨?_, ?_⟩
    · split <;> exact hdriver
    · split <;> simp_all

theorem becomes_joinPair (a b : Channel (Plan α)) :
    a.Becomes (n.joinPair a b).1 ∧ b.Becomes (n.joinPair a b).2 := by
  unfold joinPair
  split
  · exact ⟨.refl a, .refl b⟩
  · exact Channel.Becomes.coPartition a b (n.keyList 0) (n.keyList 1)

theorem becomes_of_mem_joinAlternatives {a b : Channel (Plan α)}
    (h : alt ∈ n.joinAlternatives a b) : List.Forall₂ Channel.Becomes [a, b] alt.inputs := by
  obtain ⟨ha, hb⟩ := n.becomes_joinPair a b
  rw [(spec_of_mem_joinAlternatives h).2]
  split
  · exact .cons (ha.trans (.sortedOn _ _)) (.cons (hb.trans (.sortedOn _ _)) .nil)
  · exact .cons ha (.cons hb .nil)

theorem becomes_coGroupAlternative (a b : Channel (Plan α)) :
    List.Forall₂ Channel.Becomes [a, b] (n.coGroupAlternative a b).inputs := by
  obtain ⟨ha, hb⟩ := Channel.Becomes.coPartition a b (n.keyList 0) (n.keyList 1)
  exact .cons (ha.trans (.groupedOn _ _)) (.cons (hb.trans (.groupedOn _ _)) .nil)

variable [Quantity α] {sizeOf : NodeId → Option α}

/-- A cross copies a side only if no hint decides how that side is shipped. -/
theorem forced_of_copiesSecond (n : Node) (sizeOf : NodeId → Option α) {a b : Channel (Plan α)}
    (h : (a.forced && b.forced) = false) :
    if n.copiesSecond sizeOf a b then b.forced = false else a.forced = false := by
  unfold copiesSecond
  cases ha : a.forced with
  | true =>
    rw [ha, Bool.true_and] at h
    simpa using h
  | false =>
    cases hb : b.forced with
    | true => simp
    | false => simp

theorem becomes_crossAlternative (a b : Channel (Plan α)) :
    List.Forall₂ Channel.Becomes [a, b] (n.crossAlternative sizeOf a b).inputs := by
  have hsame : List.Forall₂ Channel.Becomes [a, b] [a, b] :=
    .cons (.refl a) (.cons (.refl b) .nil)
  unfold crossAlternative
  split
  · exact hsame
  · split
    · exact hsame
    · split
      · split <;> exact hsame
      · rename_i hforced
        have hcopied := n.forced_of_copiesSecond sizeOf (Bool.not_eq_true _ ▸ hforced)
        split
        · rename_i hsecond
          rw [if_pos hsecond] at hcopied
          exact .cons (.refl a) (.cons (.withShip hcopied _) .nil)
        · rename_i hfirst
          rw [if_neg hfirst] at hcopied
          exact .cons (.withShip hcopied _) (.cons (.refl b) .nil)

omit [Quantity α] in
/-- One channel per input are as many as the kind has positions, unless it is a union. -/
theorem length_eq_arity (hn : n.kind.Accepts n.keys (n.inputs.map (·.position)))
    (ht : t.length = n.inputs.length) (kind : Kind) (hkind : n.kind = .operator kind)
    (hunion : kind.isUnion = false) : t.length = kind.arity := by
  rw [hkind] at hn
  rw [ht, ← hn.length hunion, List.length_map]

/-- An alternative runs on the given channels, or on what may become of them. -/
theorem becomes_of_mem_alternatives
    (hn : n.kind.Accepts n.keys (n.inputs.map (·.position))) (ht : t.length = n.inputs.length)
    (h : alt ∈ n.alternatives sizeOf t) : List.Forall₂ Channel.Becomes t alt.inputs := by
  have harity := length_eq_arity hn ht
  have hrefl : List.Forall₂ Channel.Becomes t t := List.forall₂_same.2 fun c _ => .refl c
  unfold alternatives at h
  split at h
  · rename_i spec hkind
    obtain rfl := List.length_eq_zero_iff.1 (harity _ hkind rfl)
    obtain rfl := List.mem_singleton.1 h
    exact .nil
  all_goals try (obtain rfl := List.mem_singleton.1 h; exact hrefl)
  · rename_i c rest hkind
    have hone := harity _ hkind rfl
    obtain rfl : rest = [] := by simpa [Kind.arity] using hone
    exact becomes_of_mem_reduceAlternatives h
  · rename_i a b rest hkind
    have htwo := harity _ hkind rfl
    obtain rfl : rest = [] := by simpa [Kind.arity] using htwo
    exact becomes_of_mem_joinAlternatives h
  · rename_i a b rest hkind
    have htwo := harity _ hkind rfl
    obtain rfl : rest = [] := by simpa [Kind.arity] using htwo
    obtain rfl := List.mem_singleton.1 h
    exact becomes_crossAlternative a b
  · rename_i a b rest hkind
    have htwo := harity _ hkind rfl
    obtain rfl : rest = [] := by simpa [Kind.arity] using htwo
    obtain rfl := List.mem_singleton.1 h
    exact becomes_coGroupAlternative a b
  · simp at h

/-- Only a reduce, which may turn channels down, and a join, which has several drivers, do not run
on given channels in exactly one way. -/
theorem length_alternatives (hn : n.kind.Accepts n.keys (n.inputs.map (·.position)))
    (ht : t.length = n.inputs.length) (hone : n.kind.runsOneWay = true) :
    (n.alternatives sizeOf t).length = 1 := by
  have harity := length_eq_arity hn ht
  cases hkind : n.kind with
  | sinkJoiner => simp [alternatives, hkind]
  | operator kind =>
    cases kind with
    | source spec => simp [alternatives, hkind]
    | map => simp [alternatives, hkind]
    | sink => simp [alternatives, hkind]
    | union => simp [alternatives, hkind]
    | reduce => simp [NodeKind.runsOneWay, hkind] at hone
    | equiJoin => simp [NodeKind.runsOneWay, hkind] at hone
    | cross =>
      obtain ⟨a, b, rfl⟩ := List.length_eq_two.1 (harity _ hkind rfl)
      simp [alternatives, hkind]
    | coGroup =>
      obtain ⟨a, b, rfl⟩ := List.length_eq_two.1 (harity _ hkind rfl)
      simp [alternatives, hkind]

end Node

/-! ## §2 Every choice of producers can run -/

theorem FieldSet.isEmpty_ofList {fields : List Nat} (h : fields ≠ []) :
    (FieldSet.ofList fields).isEmpty = false := by
  cases hempty : (FieldSet.ofList fields).isEmpty with
  | false => rfl
  | true =>
    obtain ⟨f, hf⟩ := List.exists_mem_of_ne_nil fields h
    exact absurd (mem_ofList.2 hf) (isEmpty_iff.1 hempty f)

theorem Placement.hashed_isMetBy_self {fields : FieldSet} (h : fields.isEmpty = false) :
    (hashed fields).isMetBy (hashed fields) = true := by
  rw [hashed_isMetBy_hashed, h, Bool.not_false, Bool.true_and, FieldSet.subset_iff]
  exact fun _ hf => hf

namespace Channel

/-- A channel that a node defined over keys can work with: a hint decides, or the data is hashed on
key columns. -/
def Keyed (c : Channel (Plan α)) (keys : FieldSet) : Prop :=
  c.forced = true ∨ (Placement.hashed keys).isMetBy c.placement = true

@[simp] theorem placement_arrange (c : Channel (Plan α)) (arrangement : Arrangement) :
    (c.arrange arrangement).placement = c.placement := by
  unfold arrange
  split <;> rfl

/-- Unless a hint decides, shipping as asked places the data as asked. -/
theorem isMetBy_place {c : Channel (Plan α)} (hforced : c.forced = false) {placement : Placement}
    (hhashed : ∀ fields, placement = .hashed fields → fields.isEmpty = false) :
    placement.isMetBy (c.place placement).placement = true := by
  unfold place
  rw [hforced, Bool.false_or]
  split
  · rename_i hmet
    exact hmet
  · cases placement with
    | any => rfl
    | hashed fields => exact Placement.hashed_isMetBy_self (hhashed fields rfl)
    | replicated => rfl

/-- Hashing on the keys is what makes a channel fit for a node defined over them. -/
theorem keyed_realize (c : Channel (Plan α)) {r : Request α} {keys : FieldSet}
    (hr : r.placement = .hashed keys) (hkeys : keys.isEmpty = false) :
    (c.realize r).Keyed keys := by
  unfold Keyed
  rw [forced_eq_of_route (Becomes.realize c r).route]
  cases hforced : c.forced with
  | true => exact .inl rfl
  | false =>
    right
    unfold realize
    rw [placement_arrange, hr]
    refine isMetBy_place hforced ?_
    rintro fields ⟨⟩
    exact hkeys

theorem Keyed.not_replicated {c : Channel (Plan α)} {keys : FieldSet} (h : c.Keyed keys) :
    c.forced = true ∨ c.placement.isReplicated = false := by
  rcases h with h | h
  · exact .inl h
  · right
    cases hp : c.placement with
    | replicated => simp [hp] at h
    | any => rfl
    | hashed fields => rfl

end Channel

namespace Node

theorem isEmpty_keyFields {n : Node} {input : Nat} (h : n.keyList input ≠ []) :
    (n.keyFields input).isEmpty = false := FieldSet.isEmpty_ofList h

theorem reduceAlternatives_ne_nil {n : Node} {c : Channel (Plan α)}
    (h : c.Keyed (n.keyFields 0)) : n.reduceAlternatives c ≠ [] := by
  unfold reduceAlternatives
  dsimp only
  split
  · rename_i hreject
    rw [Bool.and_eq_true, Bool.not_eq_true', Bool.not_eq_true'] at hreject
    rcases h with h | h
    · rw [hreject.1] at h
      simp at h
    · have hmet : (Placement.hashed (FieldSet.ofList (n.keyList 0))).isMetBy c.placement = true := h
      rw [hreject.2] at hmet
      simp at hmet
  · simp

theorem joinDrivers_ne_nil (n : Node) : n.joinDrivers ≠ [] := by
  unfold joinDrivers
  split <;> simp

theorem joinAlternatives_ne_nil {n : Node} {a b : Channel (Plan α)} {keys : FieldSet}
    (h : b.Keyed keys) : n.joinAlternatives a b ≠ [] := by
  unfold joinAlternatives
  dsimp only
  split
  · rename_i hreject
    simp only [Bool.and_eq_true, Bool.not_eq_true', Bool.or_eq_false_iff] at hreject
    obtain ⟨⟨-, hrb⟩, -, hforced⟩ := hreject
    rcases h.not_replicated with h | h
    · rw [hforced] at h
      simp at h
    · rw [hrb] at h
      simp at h
  · simp [joinDrivers_ne_nil]

variable [Quantity α]

/-- A node defined over keys runs on channels that are fit for it; any other node runs on any
channels. -/
theorem alternatives_ne_nil {n : Node} {t : List (Channel (Plan α))} {sizeOf : NodeId → Option α}
    (hn : n.kind.Accepts n.keys (n.inputs.map (·.position)))
    (ht : List.Forall₂ (fun ch c => n.ownRequests (α := α) c.position ≠ [] →
      ch.Keyed (n.keyFields c.position)) t n.inputs) : n.alternatives sizeOf t ≠ [] := by
  -- Only the position of an input matters, and the positions are counted through.
  have hrange : ∀ kind, n.kind = .operator kind → kind.isUnion = false →
      List.Forall₂ (fun ch i => n.ownRequests (α := α) i ≠ [] → ch.Keyed (n.keyFields i)) t
        (List.range kind.arity) := by
    intro kind hkind hunion
    rw [hkind] at hn
    rw [← hn.1 hunion, List.forall₂_map_right_iff]
    exact ht
  cases hkind : n.kind with
  | sinkJoiner => simp [alternatives, hkind]
  | operator kind =>
    cases kind with
    | source spec => simp [alternatives, hkind]
    | map => simp [alternatives, hkind]
    | sink => simp [alternatives, hkind]
    | union => simp [alternatives, hkind]
    | reduce =>
      obtain ⟨ch, _, hch, hnil, rfl⟩ := List.forall₂_cons_right_iff.1 (hrange _ hkind rfl)
      obtain rfl := List.forall₂_nil_right_iff.1 hnil
      simp only [alternatives, hkind]
      exact reduceAlternatives_ne_nil (hch (by simp [ownRequests, hkind]))
    | equiJoin =>
      obtain ⟨a, _, -, hrest, rfl⟩ := List.forall₂_cons_right_iff.1 (hrange _ hkind rfl)
      obtain ⟨b, _, hb, hnil, rfl⟩ := List.forall₂_cons_right_iff.1 hrest
      obtain rfl := List.forall₂_nil_right_iff.1 hnil
      simp only [alternatives, hkind]
      exact joinAlternatives_ne_nil (hb (by simp [ownRequests, hkind]))
    | cross =>
      obtain ⟨a, _, -, hrest, rfl⟩ := List.forall₂_cons_right_iff.1 (hrange _ hkind rfl)
      obtain ⟨b, _, -, -, rfl⟩ := List.forall₂_cons_right_iff.1 hrest
      simp [alternatives, hkind]
    | coGroup =>
      obtain ⟨a, _, -, hrest, rfl⟩ := List.forall₂_cons_right_iff.1 (hrange _ hkind rfl)
      obtain ⟨b, _, -, -, rfl⟩ := List.forall₂_cons_right_iff.1 hrest
      simp [alternatives, hkind]

/-- Where a node asks anything for itself, it is defined over keys. -/
theorem requiresKeys_of_ownRequests {n : Node} {kind : Kind} (hkind : n.kind = .operator kind)
    {input : Nat} (h : n.ownRequests (α := α) input ≠ []) : kind.requiresKeys = true := by
  cases kind <;> simp_all [ownRequests, Kind.requiresKeys]

/-- A node that asks anything for itself has keys on all its inputs. -/
theorem keyList_ne_nil_of_ownRequests {g : Graph} (hg : g.Numbered) {n : NodeId} {c : Connection}
    (hc : c ∈ (g.node n).inputs) (h : (g.node n).ownRequests (α := α) c.position ≠ []) :
    (g.node n).keyList c.position ≠ [] := by
  have haccepted := hg.accepted n (Graph.lt_size_of_mem hc)
  cases hkind : (g.node n).kind with
  | sinkJoiner => simp [ownRequests, hkind] at h
  | operator kind =>
    rw [hkind] at haccepted
    exact haccepted.2.2 (requiresKeys_of_ownRequests hkind h) c.position
      (haccepted.position_lt (List.mem_map_of_mem hc))

/-- The first thing that a node defined over keys asks is hashing on them. -/
theorem exists_mem_ownRequests {n : Node} {input : Nat} (h : n.ownRequests (α := α) input ≠ []) :
    ∃ r ∈ n.ownRequests (α := α) input, r.placement = .hashed (n.keyFields input) := by
  unfold ownRequests at h ⊢
  dsimp only at h ⊢
  split at h
  · exact ⟨_, List.mem_cons_self, rfl⟩
  · exact ⟨_, List.mem_cons_self, rfl⟩
  · exact ⟨_, List.mem_cons_self, rfl⟩
  · exact absurd rfl h

end Node

namespace Problem

variable [Quantity α] {p : Problem α}

/-- Over every connection and from every plan some offer is fit for the consumer. -/
theorem exists_keyed_offer (hg : p.graph.WellFormed)
    (hp : p.analysis = .complete p.graph p.model) {n : NodeId} {c : Connection}
    (hc : c ∈ (p.graph.node n).inputs) (q : Plan α) :
    ∃ ch ∈ p.offers c q, (p.graph.node n).ownRequests (α := α) c.position ≠ [] →
      ch.Keyed ((p.graph.node n).keyFields c.position) := by
  by_cases hown : (p.graph.node n).ownRequests (α := α) c.position = []
  · exact ⟨_, List.mem_cons_self, fun h => absurd hown h⟩
  · obtain ⟨r, hr, hplacement⟩ := Node.exists_mem_ownRequests hown
    obtain ⟨r', hr', hsame⟩ := Graph.exists_requestsOver_of_own hg p.model hc hr
    refine ⟨(p.baseChannel c q).realize r', ?_, fun _ => ?_⟩
    · refine List.mem_cons_of_mem _ (List.mem_map_of_mem ?_)
      rw [hp]
      exact hr'
    · have hplacement' : r'.placement = .hashed ((p.graph.node n).keyFields c.position) := by
        rw [← hplacement]
        simp only [Request.isSame, Bool.and_eq_true, beq_iff_eq] at hsame
        exact hsame.1
      exact Channel.keyed_realize _ hplacement' (Node.isEmpty_keyFields
        (Node.keyList_ne_nil_of_ownRequests hg.toNumbered hc hown))

/-- Whichever plans are chosen as producers, some channels over them are accepted. -/
theorem exists_picks (hg : p.graph.WellFormed) (hp : p.analysis = .complete p.graph p.model)
    {n : NodeId} (hn : n < p.graph.size) {producers : List (Plan α)}
    {kept : NodeId → List (Plan α)}
    (hids : ∀ m, ∀ a ∈ kept m, ∀ b ∈ kept m, a.id = b.id → a = b)
    (h : List.Forall₂ (fun q c => q ∈ kept c.source) producers (p.graph.node n).inputs) :
    ∃ t, Picks t ((p.graph.node n).inputs.map fun c => p.channels c (kept c.source)) ∧
      t.map (·.source) = producers ∧ p.alternatives (p.graph.node n) t ≠ [] := by
  have hbuild : ∀ {cs : List Connection} {qs : List (Plan α)},
      (∀ c ∈ cs, c ∈ (p.graph.node n).inputs) →
        List.Forall₂ (fun q c => q ∈ kept c.source) qs cs →
          ∃ t, Picks t (cs.map fun c => p.channels c (kept c.source)) ∧
            t.map (·.source) = qs ∧
              List.Forall₂ (fun ch c => (p.graph.node n).ownRequests (α := α) c.position ≠ [] →
                ch.Keyed ((p.graph.node n).keyFields c.position)) t cs := by
    intro cs qs hcs hqs
    induction hqs with
    | nil => exact ⟨[], .nil, rfl, .nil⟩
    | @cons q c qs cs hq _ ih =>
      obtain ⟨t, ht, rfl, hkeyed⟩ := ih fun e he => hcs e (List.mem_cons_of_mem c he)
      obtain ⟨ch, hch, hkey⟩ := exists_keyed_offer hg hp (hcs c List.mem_cons_self) q
      refine ⟨ch :: t, .cons ?_ ht, ?_, .cons hkey hkeyed⟩
      · exact (mem_channels_iff (hids c.source)).2 ⟨q, hq, hch⟩
      · rw [List.map_cons, source_eq_of_mem_offers hch]
  obtain ⟨t, ht, hsource, hkeyed⟩ := hbuild (fun c hc => hc) h
  exact ⟨t, ht, hsource, Node.alternatives_ne_nil (hg.accepted n hn) hkeyed⟩

end Problem

end FlowPlanner
