/-
FlowPlanner.Proofs.Analysis.Fixpoint — one sweep of every pass is enough.

A pass goes over the nodes once and writes over what stands there while it reads what
stands at the neighbours. Estimates and fork states are made from those of the producers,
which come first and are not written again (`getD_overwrite`); requests are made from those
on the connections that leave a node, whose targets have had their turn
(`requestedOf_drop`). So at the end every entry is what the rule of its node makes of the
final entries around it (`Analysis.Fixpoint`), whatever stood there before. The entries that
satisfy all rules are determined by the graph (`eq_of_sweep`, `demand_eq`), which is why it
makes no difference whether a pass writes over old entries or starts from nothing.
-/
import FlowPlanner.Proofs.Graph.Conservation
import FlowPlanner.Proofs.Graph.Growth
import FlowPlanner.Proofs.Optimizer

namespace FlowPlanner

/-! ## §1 Requests gathered in order -/

namespace Request

variable {α : Type}

theorem isSame_comm (r s : Request α) : r.isSame s = s.isSame r := by
  unfold isSame
  rw [Bool.beq_comm, Bool.beq_comm (a := r.arrangement)]

/-- Requests put together in order are what is left of them without repetitions. -/
theorem mergeAll_nil (rs : List (Request α)) : mergeAll [] rs = rs.eraseDupsBy isSame := by
  have hloop : ∀ (rs kept : List (Request α)),
      mergeAll kept.reverse rs = List.eraseDupsBy.loop isSame rs kept := by
    intro rs
    induction rs with
    | nil => intro kept; rfl
    | cons r rs ih =>
      intro kept
      have hany : kept.reverse.any (·.isSame r) = kept.any (r.isSame ·) := by
        rw [List.any_reverse]
        exact congrArg _ (funext fun s => isSame_comm s r)
      have hmerge : mergeAll kept.reverse (r :: rs) = mergeAll (merge kept.reverse r) rs := rfl
      rw [hmerge, merge, hany, List.eraseDupsBy.loop]
      cases kept.any (r.isSame ·) with
      | true => exact ih kept
      | false => simpa using ih (r :: kept)
  exact hloop rs []

end Request

theorem Graph.requestedOf_eq_eraseDupsBy {α : Type} (g : Graph) (demand : Demand α) (n : NodeId) :
    g.requestedOf demand n =
      ((g.outgoing n).flatMap fun c => demand.getD c.id []).eraseDupsBy Request.isSame := by
  rw [← Request.mergeAll_nil]
  unfold requestedOf Request.mergeAll
  rw [List.foldl_flatMap]

/-! ## §2 Writing over an array -/

/-- Arrays of one size with the same entries are equal. -/
theorem eq_of_getD_eq {β : Type} {xs ys : Array β} (default : β) (hsize : xs.size = ys.size)
    (h : ∀ i < xs.size, xs.getD i default = ys.getD i default) : xs = ys := by
  refine Array.ext hsize fun i hi hi' => ?_
  have heq := h i hi
  rwa [Array.getD_eq_getD_getElem?, Array.getD_eq_getD_getElem?, Array.getElem?_eq_getElem hi,
    Array.getElem?_eq_getElem hi'] at heq

namespace Graph

variable {g : Graph} {β : Type} {default : β} {f : Array β → Node → β}

/-- The nodes write over the entries that stand there, one after the other. -/
def overwrite (f : Array β → Node → β) (nodes : List Node) (entries : Array β) : Array β :=
  nodes.foldl (fun entries node => entries.setIfInBounds node.id (f entries node)) entries

theorem size_overwrite : ∀ {nodes : List Node} {entries : Array β},
    (overwrite f nodes entries).size = entries.size
  | [], _ => rfl
  | node :: nodes, entries => by
    unfold overwrite
    rw [List.foldl_cons]
    exact size_overwrite.trans Array.size_setIfInBounds

/-- An entry that no node writes stays. -/
theorem getD_overwrite_of_ne {i : Nat} : ∀ {nodes : List Node} {entries : Array β},
    (∀ node ∈ nodes, node.id ≠ i) →
      (overwrite f nodes entries).getD i default = entries.getD i default
  | [], _, _ => rfl
  | node :: nodes, entries, h => by
    unfold overwrite
    rw [List.foldl_cons]
    refine (getD_overwrite_of_ne fun v hv => h v (List.mem_cons_of_mem node hv)).trans ?_
    simp [h node List.mem_cons_self]

/-- Where the entry of a node is made from those of its producers, each node has at the end the
entry that the final entries of its producers determine, whatever stood there before. -/
theorem getD_overwrite (hg : g.Numbered) (hf : ∀ (before after : Array β) (node : Node),
      (∀ c ∈ node.inputs, before.getD c.source default = after.getD c.source default) →
        f before node = f after node) {entries : Array β} (hentries : entries.size = g.size)
    {n : NodeId} (hn : n < g.size) :
    (overwrite f g.nodes.toList entries).getD n default =
      f (overwrite f g.nodes.toList entries) (g.node n) := by
  -- The nodes behind `m` write no entry up to `m`.
  have hbehind : ∀ {m i : NodeId} {entries : Array β}, i ≤ m →
      (overwrite f (g.nodes.toList.drop (m + 1)) entries).getD i default =
        entries.getD i default := by
    intro m i entries hi
    refine getD_overwrite_of_ne fun node hnode hid => ?_
    obtain ⟨k, hk, hsize, rfl⟩ := exists_lt_of_mem_drop hnode
    rw [hg.node_id k hsize] at hid
    exact absurd (hid ▸ hk) (Nat.not_lt_of_le hi)
  have hsplit : overwrite f g.nodes.toList entries =
      overwrite f (g.nodes.toList.drop (n + 1))
        ((overwrite f (g.nodes.toList.take n) entries).setIfInBounds n
          (f (overwrite f (g.nodes.toList.take n) entries) (g.node n))) := by
    conv_lhs => rw [g.nodes_split hn]
    unfold overwrite
    rw [List.foldl_append, List.foldl_cons, hg.node_id n hn]
  generalize hturn : overwrite f (g.nodes.toList.take n) entries = turn at hsplit
  have hsize : n < turn.size := by
    rw [← hturn, size_overwrite, hentries]
    exact hn
  rw [hsplit, hbehind (Nat.le_refl n)]
  rw [Array.getD_eq_getD_getElem?, Array.getElem?_setIfInBounds_self_of_lt hsize, Option.getD_some]
  refine hf _ _ _ fun c hc => ?_
  have hlt := hg.source_lt n c hc
  rw [hbehind (Nat.le_of_lt hlt)]
  simp [Nat.ne_of_gt hlt]

/-- Entries that are made from those of the producers are determined by the graph. -/
theorem eq_of_sweep (hg : g.Numbered) (hf : ∀ (before after : Array β) (node : Node),
      (∀ c ∈ node.inputs, before.getD c.source default = after.getD c.source default) →
        f before node = f after node) {entries entries' : Array β} (hsize : entries.size = g.size)
    (hsize' : entries'.size = g.size)
    (h : ∀ n < g.size, entries.getD n default = f entries (g.node n))
    (h' : ∀ n < g.size, entries'.getD n default = f entries' (g.node n)) : entries = entries' := by
  have hentry : ∀ n < g.size, entries.getD n default = entries'.getD n default := by
    intro n
    induction n using Nat.strongRecOn with
    | _ n ih =>
      intro hn
      rw [h n hn, h' n hn]
      refine hf _ _ _ fun c hc => ?_
      exact ih c.source (hg.source_lt n c hc) (hg.source_lt_size hc)
  exact eq_of_getD_eq default (hsize.trans hsize'.symm) fun i hi => hentry i (hsize ▸ hi)

/-! ## §3 Writing over requests -/

variable {α : Type} [Quantity α] {model : CostModel α} {sizes : Array (Estimates α)}

/-- What is asked over all connections is determined by the graph and the sizes. -/
theorem demand_eq (hg : g.Numbered) {demand demand' : Demand α}
    (hsize : demand.size = g.connections.length) (hsize' : demand'.size = g.connections.length)
    (h : ∀ n, ∀ c ∈ (g.node n).inputs,
      demand.getD c.id [] = priced model sizes (g.node n) (g.requestedOf demand n) c)
    (h' : ∀ n, ∀ c ∈ (g.node n).inputs,
      demand'.getD c.id [] = priced model sizes (g.node n) (g.requestedOf demand' n) c) :
    demand = demand' := by
  -- The induction is on what is left of the nodes behind `n`.
  have hentry : ∀ k n, g.size - n = k → ∀ c ∈ (g.node n).inputs,
      demand.getD c.id [] = demand'.getD c.id [] := by
    intro k
    induction k using Nat.strongRecOn with
    | _ k ih =>
      rintro n rfl c hc
      have hrequested : g.requestedOf demand n = g.requestedOf demand' n := by
        refine List.foldl_ext _ _ _ fun rs d hd => ?_
        obtain ⟨⟨x, hx⟩, hsource⟩ := mem_outgoing_iff.1 hd
        have hlt : n < x := by
          rw [← hsource]
          exact hg.source_lt x d hx
        rw [ih _ (Nat.sub_lt_sub_left (lt_size_of_mem hc) hlt) x rfl d hx]
      rw [h n c hc, h' n c hc, hrequested]
  refine eq_of_getD_eq [] (hsize.trans hsize'.symm) fun i hi => ?_
  have hmem : i ∈ g.connections.map (·.id) := by
    rw [hg.ids]
    exact List.mem_range.2 (hsize ▸ hi)
  obtain ⟨c, hc, rfl⟩ := List.mem_map.1 hmem
  obtain ⟨n, hc⟩ := mem_connections_iff.1 hc
  exact hentry _ n rfl c hc

/-- The nodes, the last first, write over what is asked of them and over what they ask. -/
def overwriteRequests (g : Graph) (model : CostModel α) (sizes : Array (Estimates α))
    (nodes : List Node) (s : Demand α × Array (List (Request α))) :
    Demand α × Array (List (Request α)) :=
  nodes.foldr (fun node s =>
    (g.ask model sizes node s.1, s.2.setIfInBounds node.id (g.requestedOf s.1 node.id))) s

theorem fst_overwriteRequests {s : Demand α × Array (List (Request α))} : ∀ {nodes : List Node},
    (g.overwriteRequests model sizes nodes s).1 = nodes.foldr (g.ask model sizes) s.1
  | [] => rfl
  | node :: _ => congrArg (g.ask model sizes node) fst_overwriteRequests

theorem size_snd_overwriteRequests {s : Demand α × Array (List (Request α))} :
    ∀ {nodes : List Node}, (g.overwriteRequests model sizes nodes s).2.size = s.2.size
  | [] => rfl
  | _ :: _ => Array.size_setIfInBounds.trans size_snd_overwriteRequests

/-- What is asked of a node stays as long as the node has no turn. -/
theorem getD_overwriteRequests_of_ne {s : Demand α × Array (List (Request α))} {i : Nat} :
    ∀ {nodes : List Node}, (∀ node ∈ nodes, node.id ≠ i) →
      (g.overwriteRequests model sizes nodes s).2.getD i [] = s.2.getD i []
  | [], _ => rfl
  | node :: nodes, h => by
    refine Eq.trans ?_ (getD_overwriteRequests_of_ne fun v hv => h v (List.mem_cons_of_mem node hv))
    unfold overwriteRequests
    rw [List.foldr_cons]
    simp [h node List.mem_cons_self]

/-- At the end every node has gathered what is asked over the connections that leave it. -/
theorem getD_overwriteRequests (hg : g.Numbered) {s : Demand α × Array (List (Request α))}
    (hs : s.2.size = g.size) {n : NodeId} (hn : n < g.size) :
    (g.overwriteRequests model sizes g.nodes.toList s).2.getD n [] =
      g.requestedOf (g.nodes.toList.foldr (g.ask model sizes) s.1) n := by
  have hbefore : ∀ node ∈ g.nodes.toList.take n, node.id ≠ n := by
    intro node hnode hid
    obtain ⟨m, hm, hsize, rfl⟩ := exists_lt_of_mem_take hnode
    rw [hg.node_id m hsize] at hid
    exact Nat.lt_irrefl n (hid ▸ hm)
  have hsplit : g.overwriteRequests model sizes g.nodes.toList s =
      g.overwriteRequests model sizes (g.nodes.toList.take n)
        (g.overwriteRequests model sizes
          (g.node n :: g.nodes.toList.drop (n + 1)) s) := by
    conv_lhs => rw [g.nodes_split hn]
    exact List.foldr_append
  rw [hsplit, getD_overwriteRequests_of_ne hbefore]
  show ((g.overwriteRequests model sizes (g.nodes.toList.drop (n + 1)) s).2.setIfInBounds
    (g.node n).id (g.requestedOf (g.overwriteRequests model sizes
      (g.nodes.toList.drop (n + 1)) s).1 (g.node n).id)).getD n [] = _
  rw [hg.node_id n hn, fst_overwriteRequests, requestedOf_drop hg model sizes s.1 hn,
    Array.getD_eq_getD_getElem?, Array.getElem?_setIfInBounds_self_of_lt, Option.getD_some]
  rw [size_snd_overwriteRequests, hs]
  exact hn

end Graph

/-! ## §4 The passes -/

namespace Analysis

variable {α : Type} [Quantity α] {g : Graph} {model : CostModel α} {a : Analysis α}

/-- Every entry is what the rule of its node makes of the entries around it. -/
structure Fixpoint (a : Analysis α) (g : Graph) (model : CostModel α) : Prop where
  estimates_eq : ∀ n < g.size, a.estimates n =
    (g.node n).estimate ((g.node n).inputs.map fun c => a.estimates c.source)
  forkState_eq : ∀ n < g.size, a.forkState n = g.forkState a.forks (g.node n)
  requestsOn_eq : ∀ n < g.size, a.requestsOn n =
    ((g.outgoing n).flatMap fun c => a.requestsOver c.id).eraseDupsBy Request.isSame
  requestsOver_eq : ∀ c ∈ g.connections, a.requestsOver c.id =
    ((g.node c.target).inputRequests c.position (a.requestsOn c.target)).map fun r =>
      { r with
        price := model.realization r (a.estimates c.source) (g.node c.target).parallelism
          (g.node c.target).memoryBytes }

/-- There is an entry for every node and every connection. -/
structure Fits (a : Analysis α) (g : Graph) : Prop where
  size_sizes : a.sizes.size = g.size
  size_forks : a.forks.size = g.size
  size_requested : a.requested.size = g.size
  size_demand : a.demand.size = g.connections.length

/-- The passes over a graph. -/
inductive Pass where
  | estimate
  | track
  | propagate

namespace Pass

/-- Run a pass. -/
def run (g : Graph) (model : CostModel α) (a : Analysis α) : Pass → Analysis α
  | estimate => a.estimate g
  | track => a.track g
  | propagate => a.propagate g model

/-- Run a pass node by node, each writing over what stands there and reading what stands around
it. -/
def overwrite (g : Graph) (model : CostModel α) (a : Analysis α) : Pass → Analysis α
  | estimate =>
    { a with
      sizes := Graph.overwrite (fun sizes node =>
        node.estimate (node.inputs.map fun c => sizes.getD c.source .unknown))
          g.nodes.toList a.sizes }
  | track => { a with forks := Graph.overwrite g.forkState g.nodes.toList a.forks }
  | propagate =>
    let s := g.overwriteRequests model a.sizes g.nodes.toList (a.demand, a.requested)
    { a with demand := s.1, requested := s.2 }

/-- Writing over old entries comes to the same as starting from nothing. -/
theorem overwrite_eq_run (hg : g.Numbered) (ha : a.Fits g) (pass : Pass) :
    pass.overwrite g model a = pass.run g model a := by
  cases pass with
  | estimate =>
    have hsizes : Graph.overwrite (fun sizes node =>
        node.estimate (node.inputs.map fun c => sizes.getD c.source .unknown))
          g.nodes.toList a.sizes = g.estimates :=
      Graph.eq_of_sweep hg Graph.estimate_congr (Graph.size_overwrite.trans ha.size_sizes)
        (g.size_sweep _) (fun _ hn => Graph.getD_overwrite hg Graph.estimate_congr ha.size_sizes hn)
        (fun _ hn => Graph.estimates_getD hg hn)
    unfold overwrite run Analysis.estimate
    dsimp only
    rw [hsizes]
  | track =>
    have hforks : Graph.overwrite g.forkState g.nodes.toList a.forks = g.forkStates :=
      Graph.eq_of_sweep hg g.forkState_congr (Graph.size_overwrite.trans ha.size_forks)
        (g.size_sweep _) (fun _ hn => Graph.getD_overwrite hg g.forkState_congr ha.size_forks hn)
        (fun _ hn => Graph.forkStates_getD hg hn)
    unfold overwrite run Analysis.track
    dsimp only
    rw [hforks]
  | propagate =>
    have hdemand : g.nodes.toList.foldr (g.ask model a.sizes) a.demand = g.demand model a.sizes :=
      Graph.demand_eq hg ((g.size_foldr_ask model a.sizes _ _).trans ha.size_demand)
        ((g.size_foldr_ask model a.sizes _ _).trans Array.size_replicate)
        (fun _ _ hc => Graph.getD_foldr_ask hg model a.sizes ha.size_demand hc)
        (fun _ _ hc => Graph.getD_demand hg model a.sizes hc)
    have hrequested : (g.overwriteRequests model a.sizes g.nodes.toList
        (a.demand, a.requested)).2 = (a.propagate g model).requested := by
      refine eq_of_getD_eq [] ?_ fun n hn => ?_
      · rw [Graph.size_snd_overwriteRequests, ha.size_requested]
        simp [Analysis.propagate, Graph.size]
      · rw [Graph.size_snd_overwriteRequests, ha.size_requested] at hn
        rw [Graph.getD_overwriteRequests hg ha.size_requested hn, hdemand]
        exact (Graph.requestsOn_propagate hg model a hn).symm
    unfold overwrite
    dsimp only
    rw [hrequested, Graph.fst_overwriteRequests, hdemand]
    rfl

theorem fits_run (model : CostModel α) (ha : a.Fits g) (pass : Pass) : (pass.run g model a).Fits g := by
  cases pass with
  | estimate => exact ⟨g.size_sweep _, ha.size_forks, ha.size_requested, ha.size_demand⟩
  | track => exact ⟨ha.size_sizes, g.size_sweep _, ha.size_requested, ha.size_demand⟩
  | propagate =>
    refine ⟨ha.size_sizes, ha.size_forks, ?_, ?_⟩
    · simp [run, Analysis.propagate, Graph.size]
    · exact (g.size_foldr_ask model a.sizes _ _).trans Array.size_replicate

end Pass

/-- All three passes, one after the other, write down the same whatever stood there before. -/
theorem Fits.overwrite_all (hg : g.Numbered) (ha : a.Fits g) :
    [Pass.estimate, .track, .propagate].foldl (Pass.overwrite g model) a = .complete g model := by
  have hestimate := Pass.fits_run model ha .estimate
  have htrack := Pass.fits_run model hestimate .track
  rw [List.foldl_cons, Pass.overwrite_eq_run hg ha, List.foldl_cons,
    Pass.overwrite_eq_run hg hestimate, List.foldl_cons, Pass.overwrite_eq_run hg htrack]
  rfl

theorem fits_complete (g : Graph) (model : CostModel α) : (complete g model).Fits g where
  size_sizes := g.size_sweep _
  size_forks := g.size_sweep _
  size_requested := by simp [complete, propagate, Graph.size]
  size_demand := (g.size_foldr_ask model g.estimates _ _).trans Array.size_replicate

/-- An analysed graph leaves no pass anything to do. -/
theorem run_complete (pass : Pass) : pass.run g model (complete g model) = complete g model := by
  cases pass <;> rfl

theorem fixpoint_complete (hg : g.Numbered) : (complete g model).Fixpoint g model where
  estimates_eq _ hn := Graph.estimates_getD hg hn
  forkState_eq _ hn := Graph.forkStates_getD hg hn
  requestsOn_eq n hn := by
    rw [Graph.requestsOn_complete hg model hn, Graph.requestedOf_eq_eraseDupsBy]
    rfl
  requestsOver_eq c hc := by
    obtain ⟨n, hc⟩ := Graph.mem_connections_iff.1 hc
    rw [hg.target_eq n c hc, Graph.requestsOn_complete hg model (Graph.lt_size_of_mem hc)]
    exact Graph.getD_demand hg model g.estimates hc

end Analysis

namespace Optimizer

/-- The analysis of a laid out job satisfies the rules of all passes. Running passes again, in
whatever order, changes nothing, whether they start from nothing or write over what is there; and
writing over any other entries, each pass once, leads to it. -/
theorem prepared_analysis_is_fixpoint {α : Type} [Quantity α] {o : Optimizer α} {job : Job}
    {p : Problem α} (h : o.prepare job = .ok p) :
    p.analysis.Fixpoint p.graph p.model ∧
    (∀ passes : List Analysis.Pass,
      passes.foldl (Analysis.Pass.run p.graph p.model) p.analysis = p.analysis ∧
      passes.foldl (Analysis.Pass.overwrite p.graph p.model) p.analysis = p.analysis) ∧
    ∀ a : Analysis α, a.Fits p.graph →
      [.estimate, .track, .propagate].foldl (Analysis.Pass.overwrite p.graph p.model) a =
        p.analysis := by
  have hp := prepared h
  have hg := hp.wellFormed.toNumbered
  rw [hp.analysis_eq]
  have hfits := Analysis.fits_complete p.graph p.model
  refine ⟨Analysis.fixpoint_complete hg, fun passes => ?_, fun a ha => ha.overwrite_all hg⟩
  induction passes with
  | nil => exact ⟨rfl, rfl⟩
  | cons pass passes ih =>
    rw [List.foldl_cons, List.foldl_cons, Analysis.Pass.overwrite_eq_run hg hfits,
      Analysis.run_complete]
    exact ih

/-- The graph has unions put in for positions, a union of its own that reads a source twice, nodes
that several connections leave, and a joiner. -/
theorem prepared_analysis_is_fixpoint_repeatedProducers : ∃ p,
    ofDefaults.prepare Graph.repeatedProducers = .ok p ∧ p.graph.size = 9 ∧
      p.analysis.Fixpoint p.graph p.model ∧
        [Analysis.Pass.propagate, .estimate, .propagate, .track].foldl
          (Analysis.Pass.overwrite p.graph p.model) p.analysis = p.analysis := by
  obtain ⟨p, hp, hsize⟩ := exists_ok_of_any (r := ofDefaults.prepare Graph.repeatedProducers)
    (f := fun p => p.graph.size == 9) (by decide +kernel)
  obtain ⟨hfixpoint, hpasses, -⟩ := prepared_analysis_is_fixpoint hp
  exact ⟨p, hp, by simpa using hsize, hfixpoint, (hpasses _).2⟩

end Optimizer

end FlowPlanner
