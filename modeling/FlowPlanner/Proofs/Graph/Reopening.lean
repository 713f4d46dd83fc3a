/-
FlowPlanner.Proofs.Graph.Reopening — where forks are open again, and where they stay open.

No open way of a fork leads through a node at which the fork is closed, but one
may lead around it: then the fork is open again below (`isOpenAt_below_iff`). This
takes another fork in between (`nestedForks`), whose data goes both to the node
and around it; without one the fork stays closed. No fork is closed too early: what closes it is
below all of its connections, so at a node that one of them leads around the fork is
open, and the connections that lead there are joined (`bypassed_forks_stay_open`).
-/
import FlowPlanner.Proofs.Search.Agreement

namespace FlowPlanner

namespace Graph

variable {g : Graph} {fork n : NodeId} {d : Connection}

/-! ## §1 Below a node where a fork is closed -/

theorem size_forkStates (g : Graph) : g.forkStates.size = g.size := g.size_sweep g.forkState

theorem IsClosedAt.lt_size (h : g.IsClosedAt fork n) : n < g.size := by
  by_contra hn
  unfold IsClosedAt at h
  rw [Array.getD_eq_getD_getElem?, Array.getElem?_eq_none (by
    rw [size_forkStates]
    exact Nat.le_of_not_lt hn)] at h
  simp at h

theorem IsClosedAt.not_isOpenAt (hg : g.Numbered) (h : g.IsClosedAt fork n) :
    ¬ g.IsOpenAt fork n := by
  intro hopen
  obtain ⟨-, -, d, hd, hnot⟩ := (isOpenAt_iff hg h.lt_size).1 hopen
  exact hnot (((isClosedAt_iff hg h.lt_size).1 h).2 d hd)

/-- The nodes below a node belong to the graph as it does. -/
theorem Reaches.lt_size {x : NodeId} (h : g.Reaches n x) (hn : n < g.size) : x < g.size := by
  rcases h.cases_target with rfl | ⟨c, hc, -⟩
  · exact hn
  · exact lt_size_of_mem hc

/-- Where no other fork stands between a fork and a node at which it is closed, data of the fork
stays above that node as long as the fork is open. -/
theorem OpenWay.reaches_closed (hg : g.Numbered) (hclosed : g.IsClosedAt fork n)
    (hbetween : ∀ m, g.Reaches fork m → g.Reaches m n → m ≠ fork → m ≠ n → g.isFork m = false)
    (hd : d ∈ g.outgoing fork) {x : NodeId} (h : g.OpenWay fork d x) : g.Reaches x n := by
  induction h with
  | enter hx =>
    rw [← hg.target_eq _ d hx]
    exact (((isClosedAt_iff hg hclosed.lt_size).1 hclosed).2 d hd).reaches hg
  | @pass x c hc hopen hway ih =>
    have hne : c.source ≠ n := by
      intro heq
      exact hclosed.not_isOpenAt hg (heq ▸ hopen)
    obtain ⟨hbelow, hlt⟩ := hg.below_of_outgoing hd (hway.reaches hg)
    have hsingle := hbetween c.source hbelow ih (Nat.ne_of_gt hlt) hne
    -- The one connection that leaves the source leads on to the node.
    rcases Relation.ReflTransGen.cases_head ih with heq | ⟨y, ⟨e, he, hes⟩, hy⟩
    · exact absurd heq hne
    · obtain rfl := eq_of_not_isFork hsingle hc he rfl hes
      rw [← hg.target_eq x c hc, hg.target_eq y c he]
      exact hy

/-- A fork closed at a node stays closed below if no other fork stands between the two. -/
theorem IsClosedAt.not_isOpenAt_below (hg : g.Numbered) (hclosed : g.IsClosedAt fork n)
    (hbetween : ∀ m, g.Reaches fork m → g.Reaches m n → m ≠ fork → m ≠ n → g.isFork m = false)
    {x : NodeId} (hx : g.Reaches n x) : ¬ g.IsOpenAt fork x := by
  intro hopen
  obtain ⟨-, ⟨d, hd, hway⟩, -⟩ := (isOpenAt_iff hg (hx.lt_size hclosed.lt_size)).1 hopen
  have hback := hway.reaches_closed hg hclosed hbetween hd
  obtain rfl : n = x := Nat.le_antisymm (hg.le_of_reaches hx) (hg.le_of_reaches hback)
  exact hclosed.not_isOpenAt hg hopen

/-- A connection of a fork without an open way to a node that it reaches is stopped at a node where
the fork is closed. -/
theorem exists_isClosedAt (hg : g.Numbered) (hfork : g.isFork fork = true)
    (hd : d ∈ g.outgoing fork) {x : NodeId} (hx : x < g.size) (hreach : g.Reaches d.target x)
    (hnot : ¬ g.OpenWay fork d x) : ∃ n, g.IsClosedAt fork n ∧ g.Reaches n x := by
  induction hreach with
  | refl => exact absurd (.enter (hg.mem_inputs_target hd).1) hnot
  | @tail y z hy hyz ih =>
    obtain ⟨c, hc, rfl⟩ := hyz
    have hsize := hg.source_lt_size hc
    by_cases hway : g.OpenWay fork d c.source
    · refine ⟨c.source, ?_, reaches_of_mem hc⟩
      rw [isClosedAt_iff hg hsize]
      refine ⟨hfork, ?_⟩
      by_contra hsome
      push Not at hsome
      exact hnot (.pass hc ((isOpenAt_iff hg hsize).2 ⟨hfork, ⟨d, hd, hway⟩, hsome⟩) hway)
    · obtain ⟨n, hclosed, hn⟩ := ih hsize hway
      exact ⟨n, hclosed, hn.trans (reaches_of_mem hc)⟩

/-- Whatever closes a fork is below all of its connections. So if one of them leads around a node, no
way to the node is blocked. -/
theorem openWay_iff_of_bypass (hg : g.Numbered) (hfork : g.isFork fork = true)
    (hd : d ∈ g.outgoing fork) (hn : n < g.size) (hbypass : ¬ g.Reaches d.target n)
    {e : Connection} (he : e ∈ g.outgoing fork) :
    g.OpenWay fork e n ↔ g.Reaches e.target n := by
  refine ⟨fun hway => hway.reaches hg, fun hreach => ?_⟩
  by_contra hnot
  obtain ⟨m, hclosed, hm⟩ := exists_isClosedAt hg hfork he hn hreach hnot
  have hway := ((isClosedAt_iff hg hclosed.lt_size).1 hclosed).2 d hd
  exact hbypass ((hway.reaches hg).trans hm)

/-- The root is below whatever closes a fork, so a fork with no other fork below it is not open
there. -/
theorem WellFormed.not_isOpenAt_root (hg : g.WellFormed)
    (hbelow : ∀ m, g.Reaches fork m → m ≠ fork → g.isFork m = false) :
    ¬ g.IsOpenAt fork g.root := by
  intro hopen
  obtain ⟨hfork, -, d, hd, hnot⟩ := (isOpenAt_iff hg.toNumbered hg.root_lt).1 hopen
  have hreach := hg.to_root d.target (lt_size_of_mem (hg.mem_inputs_target hd).1)
  obtain ⟨n, hclosed, hn⟩ := exists_isClosedAt hg.toNumbered hfork hd hg.root_lt hreach hnot
  exact hclosed.not_isOpenAt_below hg.toNumbered (fun m hm _ hne _ => hbelow m hm hne) hn hopen

end Graph

/-! ## §2 The forks of a job -/

/-- Below a node at which a fork is closed it is open exactly where some of its connections have an
open way, and so one around the node, and some have none. If no other fork stands between the fork
and the node, it is open at no node below. A fork with no other fork below it is not open at the
root. -/
theorem isOpenAt_below_iff {config : Config} {job : Job} {g : Graph}
    (h : Graph.build config job = .ok g) (fork : NodeId) :
    (∀ n x, g.IsClosedAt fork n → g.Reaches n x →
      ¬ g.IsOpenAt fork n ∧
      (g.IsOpenAt fork x ↔ (∃ d ∈ g.outgoing fork, g.OpenWay fork d x) ∧
        ∃ d ∈ g.outgoing fork, ¬ g.OpenWay fork d x) ∧
      ((∀ m, g.Reaches fork m → g.Reaches m n → m ≠ fork → m ≠ n → g.isFork m = false) →
        ¬ g.IsOpenAt fork x)) ∧
      ((∀ m, g.Reaches fork m → m ≠ fork → g.isFork m = false) → ¬ g.IsOpenAt fork g.root) := by
  have hg := Graph.wellFormed_of_build h
  refine ⟨?_, hg.not_isOpenAt_root⟩
  intro n x hclosed hx
  have hsize := hclosed.lt_size
  refine ⟨hclosed.not_isOpenAt hg.toNumbered, ?_,
    fun hbetween => hclosed.not_isOpenAt_below hg.toNumbered hbetween hx⟩
  have hfork := ((Graph.isClosedAt_iff hg.toNumbered hsize).1 hclosed).1
  rw [Graph.isOpenAt_iff hg.toNumbered (hx.lt_size hsize)]
  exact ⟨fun hopen => hopen.2, fun hways => ⟨hfork, hways⟩⟩

/-- The source of the diamond is closed at the cross, and not open at the sink below. -/
theorem not_isOpenAt_diamond : ∃ g, Graph.build {} diamond = .ok g ∧ g.IsClosedAt 0 3 ∧
    g.Reaches 3 4 ∧ g.root = 4 ∧ ¬ g.IsOpenAt 0 4 := by
  obtain ⟨g, hbuild, hcheck⟩ := exists_ok_of_any (r := Graph.build {} diamond)
    (f := fun g => decide (0 ∈ (g.forkStates.getD 3 {}).closedHere) &&
      (g.node 4).inputs.any (·.source == 3) && g.root == 4 &&
        (List.range 4).all fun m => m == 0 || !g.isFork m) (by decide +kernel)
  simp only [Bool.and_eq_true, decide_eq_true_eq, List.any_eq_true, beq_iff_eq, List.all_eq_true,
    List.mem_range, Bool.or_eq_true, Bool.not_eq_true'] at hcheck
  obtain ⟨⟨⟨hclosed, c, hc, hsource⟩, hroot⟩, hforks⟩ := hcheck
  have hg := Graph.wellFormed_of_build hbuild
  have hreach : g.Reaches 3 4 := hsource ▸ Graph.reaches_of_mem hc
  refine ⟨g, hbuild, hclosed, hreach, hroot,
    ((isOpenAt_below_iff hbuild 0).1 3 4 hclosed hreach).2.2 ?_⟩
  intro m _ hm hne _
  exact (hforks m (Nat.lt_succ_of_le (hg.le_of_reaches hm))).resolve_left hne

/-- A source that a map and a cross read; the map is read by that cross and by the next one. -/
def nestedForks : Job where
  operators :=
    [{ id := 1, name := "in", kind := .source {} },
     { id := 2, name := "copy", kind := .map, inputs := [[1]] },
     { id := 3, name := "inner", kind := .cross, inputs := [[2], [1]] },
     { id := 4, name := "outer", kind := .cross, inputs := [[3], [2]] },
     { id := 5, name := "out", kind := .sink, inputs := [[4]] }]

/-- The source is closed at the inner cross. Over the second reader of the map its data gets to the
outer cross without passing the inner one, so it is open again there, and at the root. -/
theorem closed_fork_opens_nestedForks : ∃ g, Graph.build {} nestedForks = .ok g ∧
    ∃ fork n x, g.IsClosedAt fork n ∧ g.Reaches n x ∧ n ≠ x ∧ g.IsOpenAt fork x ∧
      g.IsOpenAt fork g.root := by
  obtain ⟨g, hbuild, hcheck⟩ := exists_ok_of_any (r := Graph.build {} nestedForks)
    (f := fun g => decide (0 ∈ (g.forkStates.getD 2 {}).closedHere) &&
      (g.node 3).inputs.any (·.source == 2) && (g.forkStates.getD 3 {}).isOpen 0 &&
        (g.forkStates.getD g.root {}).isOpen 0) (by decide +kernel)
  simp only [Bool.and_eq_true, decide_eq_true_eq, List.any_eq_true, beq_iff_eq] at hcheck
  obtain ⟨⟨⟨hclosed, c, hc, hsource⟩, hopen⟩, hroot⟩ := hcheck
  exact ⟨g, hbuild, 0, 2, 3, hclosed, hsource ▸ Graph.reaches_of_mem hc, by decide, hopen, hroot⟩

/-! ## §3 Connections that lead around a node -/

/-- The pass over the forks forgets none whose data can still diverge: a fork with a connection that
leads around a node below it is open at that node. Of its connections just those are joined there
that lead to the node. -/
theorem bypassed_forks_stay_open {config : Config} {job : Job} {g : Graph}
    (h : Graph.build config job = .ok g) {α : Type} (a : Analysis α) {fork n : NodeId}
    {d : Connection} (hreach : g.Reaches fork n) (hne : n ≠ fork) (hd : d ∈ g.outgoing fork)
    (hbypass : ¬ g.Reaches d.target n) :
    ((a.track g).forkState n).isOpen fork = true ∧
      ∀ b ∈ ((a.track g).forkState n).opened, b.fork = fork → ∀ f,
        f ∈ b.joined ↔ ∃ e, (g.outgoing fork)[f]? = some e ∧ g.Reaches e.target n := by
  have hg := (Graph.wellFormed_of_build h).toNumbered
  obtain ⟨hinput, rfl⟩ := hg.mem_inputs_target hd
  have hn : n < g.size := hreach.lt_size (hg.source_lt_size hinput)
  have hopen : g.IsOpenAt d.source n := Graph.isOpenAt_of_leaves hg hn hreach hne.symm hd hbypass
  have hfork := ((Graph.isOpenAt_iff hg hn).1 hopen).1
  refine ⟨hopen, ?_⟩
  intro b hb hsource f
  rw [Graph.mem_joined_iff hg hn hb, hsource]
  refine exists_congr fun e => and_congr_right fun he => ?_
  exact Graph.openWay_iff_of_bypass hg hfork hd hn hbypass (List.mem_of_getElem? he)

/-- A source that a cross reads on both sides and a sink on its own. -/
def partlyJoined : Job where
  operators :=
    [{ id := 1, name := "in", kind := .source {} },
     { id := 2, name := "pairs", kind := .cross, inputs := [[1], [1]] },
     { id := 3, name := "out", kind := .sink, inputs := [[2]] },
     { id := 4, name := "log", kind := .sink, inputs := [[1]] }]

/-- Behind the cross two of the three connections of the source are joined; the third one leads to
the other sink. -/
theorem bypassed_forks_stay_open_partlyJoined : ∃ g, Graph.build {} partlyJoined = .ok g ∧
    g.Reaches 0 2 ∧ (∃ d ∈ g.outgoing 0, ¬ g.Reaches d.target 2) ∧
      ((({} : Analysis Float).track g).forkState 2).isOpen 0 = true ∧
        ∃ b ∈ ((({} : Analysis Float).track g).forkState 2).opened, b.fork = 0 ∧
          b.joined = .ofList [0, 1] ∧
            ∀ f, f ∈ b.joined ↔ ∃ e, (g.outgoing 0)[f]? = some e ∧ g.Reaches e.target 2 := by
  obtain ⟨g, hbuild, hcheck⟩ := exists_ok_of_any (r := Graph.build {} partlyJoined)
    (f := fun g => (g.outgoing 0).any (·.target == 3) &&
      (g.node 1).inputs.any (·.source == 0) && (g.node 2).inputs.any (·.source == 1) &&
        decide (⟨0, .ofList [0, 1]⟩ ∈ (g.forkStates.getD 2 {}).opened)) (by decide +kernel)
  simp only [Bool.and_eq_true, decide_eq_true_eq, List.any_eq_true, beq_iff_eq] at hcheck
  obtain ⟨⟨⟨⟨d, hd, htarget⟩, c, hc, hsource⟩, e, he, hsource'⟩, hopened⟩ := hcheck
  have hg := Graph.wellFormed_of_build hbuild
  have hreach : g.Reaches 0 2 :=
    (hsource ▸ Graph.reaches_of_mem hc).trans (hsource' ▸ Graph.reaches_of_mem he)
  have hbypass : ¬ g.Reaches d.target 2 := by
    intro hreach
    have hle := hg.le_of_reaches hreach
    rw [htarget] at hle
    exact absurd hle (by decide)
  obtain ⟨hopen, hjoined⟩ :=
    bypassed_forks_stay_open hbuild ({} : Analysis Float) hreach (by decide) hd hbypass
  exact ⟨g, hbuild, hreach, ⟨d, hd, hbypass⟩, hopen, _, hopened, rfl, rfl, hjoined _ hopened rfl⟩

end FlowPlanner
