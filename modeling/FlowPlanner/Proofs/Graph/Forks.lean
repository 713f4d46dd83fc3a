/-
FlowPlanner.Proofs.Graph.Forks — what it means that a fork is open.

The pass over the nodes gives every node the state that its producers' states
determine (`forkStates_getD`). A connection of a fork counts as joined at a node
if its data gets there along a path on which the fork is open at every node passed
(`Graph.OpenWay`). So a fork is closed where all of its connections have such a
way to the node (`isClosedAt_iff`), and open where some of them have one and some
have none (`isOpenAt_iff`); in particular it is open at every node below it that
some connection of it leads around (`isOpenAt_of_bypass`).
-/
import FlowPlanner.Analysis
import FlowPlanner.Proofs.Graph.WellFormed
import Mathlib.Data.List.Basic
import Mathlib.Data.List.Perm.Subperm

namespace FlowPlanner

namespace Graph

/-! ## §1 One pass over the nodes -/

/-- A pass that adds one entry per node: each is made from the entries before it, which stay. -/
theorem exists_prefix_of_sweep {β γ : Type} (f : Array β → γ → β) :
    ∀ (xs : List γ) (acc : Array β) (i : Nat) (hi : i < xs.length), ∃ before : Array β,
      before.size = acc.size + i ∧
        (xs.foldl (fun acc x => acc.push (f acc x)) acc)[acc.size + i]? = some (f before xs[i]) ∧
          ∀ j < before.size,
            (xs.foldl (fun acc x => acc.push (f acc x)) acc)[j]? = before[j]?
  | x :: xs, acc, i, hi => by
    have hkeep : ∀ (ys : List γ) (acc : Array β) (j : Nat), j < acc.size →
        (ys.foldl (fun acc x => acc.push (f acc x)) acc)[j]? = acc[j]? := by
      intro ys
      induction ys with
      | nil => intro acc j _; rfl
      | cons y ys ih =>
        intro acc j hj
        rw [List.foldl_cons, ih _ j (by simp; omega), Array.getElem?_push_lt hj,
          Array.getElem?_eq_getElem hj]
    rw [List.foldl_cons]
    cases i with
    | zero =>
      refine ⟨acc, by simp, ?_, ?_⟩
      · rw [Nat.add_zero, hkeep xs _ acc.size (by simp)]
        simp
      · intro j hj
        rw [hkeep xs _ j (by simp; omega), Array.getElem?_push_lt hj,
          Array.getElem?_eq_getElem hj]
    | succ i =>
      have hi' : i < xs.length := by simpa using hi
      obtain ⟨before, hsize, hget, hbefore⟩ :=
        exists_prefix_of_sweep f xs (acc.push (f acc x)) i hi'
      rw [Array.size_push] at hsize hget
      refine ⟨before, by omega, ?_, hbefore⟩
      rw [show acc.size + (i + 1) = acc.size + 1 + i from by omega]
      simpa using hget

/-- Where the entry of a node is made from those of its producers, each node has the entry that the
finished entries of its producers determine. -/
theorem getD_sweep {g : Graph} (hg : g.Numbered) {β : Type} {default : β}
    {f : Array β → Node → β} (hf : ∀ (before after : Array β) (node : Node),
      (∀ c ∈ node.inputs, before.getD c.source default = after.getD c.source default) →
        f before node = f after node) {n : NodeId} (hn : n < g.size) :
    (g.nodes.foldl (fun acc node => acc.push (f acc node)) #[]).getD n default =
      f (g.nodes.foldl (fun acc node => acc.push (f acc node)) #[]) (g.node n) := by
  have hn' : n < g.nodes.toList.length := by
    rw [Array.length_toList]
    exact hn
  obtain ⟨before, hsize, hget, hbefore⟩ := exists_prefix_of_sweep f g.nodes.toList #[] n hn'
  rw [Array.foldl_toList] at hget hbefore
  have hnode : g.nodes.toList[n] = g.node n := by
    simp [node, Array.getElem?_eq_getElem (show n < g.nodes.size from hn)]
  have hsize' : before.size = n := by simpa using hsize
  have hget' : (g.nodes.foldl (fun acc node => acc.push (f acc node)) #[])[n]? =
      some (f before (g.node n)) := by
    rw [hnode] at hget
    simpa using hget
  rw [Array.getD_eq_getD_getElem?, hget', Option.getD_some]
  refine hf _ _ _ fun c hc => ?_
  rw [Array.getD_eq_getD_getElem?, Array.getD_eq_getD_getElem?, hbefore]
  rw [hsize']
  exact hg.source_lt n c hc

/-- A pass that adds one entry per node ends with as many entries as there are nodes. -/
theorem size_sweep (g : Graph) {β : Type} (f : Array β → Node → β) :
    (g.nodes.foldl (fun acc node => acc.push (f acc node)) #[]).size = g.size := by
  have hsweep : ∀ (nodes : List Node) (acc : Array β),
      (nodes.foldl (fun acc node => acc.push (f acc node)) acc).size =
        acc.size + nodes.length := by
    intro nodes
    induction nodes with
    | nil => simp
    | cons node nodes ih =>
      intro acc
      rw [List.foldl_cons, ih, Array.size_push, List.length_cons]
      omega
  rw [← Array.foldl_toList, hsweep]
  simp [size]

/-- What a node learns over a connection depends on what is known of the source. -/
theorem branchesOver_congr {g : Graph} {states states' : Array ForkState} {c : Connection}
    (h : states.getD c.source {} = states'.getD c.source {}) :
    g.branchesOver states c = g.branchesOver states' c := by
  unfold branchesOver
  rw [h]

/-- The state of a node depends on what is known of its sources. -/
theorem forkState_congr (g : Graph) (before after : Array ForkState) (node : Node)
    (h : ∀ c ∈ node.inputs, before.getD c.source {} = after.getD c.source {}) :
    g.forkState before node = g.forkState after node := by
  have hbranches : node.inputs.flatMap (g.branchesOver before) =
      node.inputs.flatMap (g.branchesOver after) :=
    List.flatMap_congr fun c hc => branchesOver_congr (h c hc)
  unfold forkState
  rw [hbranches]

/-- Every node has the state that its producers' states determine. -/
theorem forkStates_getD {g : Graph} (hg : g.Numbered) {n : NodeId} (hn : n < g.size) :
    g.forkStates.getD n {} = g.forkState g.forkStates (g.node n) :=
  getD_sweep hg g.forkState_congr hn

/-! ## §2 Meetings -/

theorem find?_meet (m : Meeting) (b : Branch) (fork : NodeId) : (meet m b).find? fork =
    if fork = b.fork then
      match m.find? fork with
      | some (joined, seen) => some (joined.union b.joined, seen + 1)
      | none => some (b.joined, 1)
    else m.find? fork := by
  unfold meet
  by_cases h : fork = b.fork
  · subst h
    cases hfind : m.find? b.fork with
    | none => simp [Table.find?_insert]
    | some e => simp [Table.find?_insert]
  · cases hfind : m.find? b.fork with
    | none => simp [Table.find?_insert, h]
    | some e => simp [Table.find?_insert, h]

/-- The forks that meet at a node are those of its branches. -/
theorem isSome_find?_foldl_meet {fork : NodeId} : ∀ {bs : List Branch} {m : Meeting},
    ((bs.foldl meet m).find? fork).isSome = true ↔
      (m.find? fork).isSome = true ∨ ∃ b ∈ bs, b.fork = fork
  | [], m => by simp
  | b :: bs, m => by
    rw [List.foldl_cons, isSome_find?_foldl_meet, find?_meet]
    by_cases h : fork = b.fork
    · subst h
      cases hfind : m.find? b.fork <;> simp
    · have h' : ¬ b.fork = fork := fun heq => h heq.symm
      simp [h, h']

/-- What has been joined of a fork is what was joined before and in the branches. -/
theorem mem_foldl_meet_iff {fork : NodeId} {f : Nat} : ∀ {bs : List Branch} {m : Meeting}
    {joined : FieldSet} {seen : Nat}, (bs.foldl meet m).find? fork = some (joined, seen) →
      (f ∈ joined ↔ (∃ e, m.find? fork = some e ∧ f ∈ e.1) ∨
        ∃ b ∈ bs, b.fork = fork ∧ f ∈ b.joined)
  | [], m, joined, seen, h => by
    have h' : m.find? fork = some (joined, seen) := h
    simp [h']
  | b :: bs, m, joined, seen, h => by
    rw [List.foldl_cons] at h
    rw [mem_foldl_meet_iff h, find?_meet]
    by_cases hb : fork = b.fork
    · rw [if_pos hb]
      subst hb
      cases m.find? b.fork with
      | none => simp
      | some d => simp [or_assoc]
    · have hb' : ¬ b.fork = fork := fun heq => hb heq.symm
      simp [hb, hb']

/-! ## §3 Open forks -/

/-- The fork is open at a node's output. -/
def IsOpenAt (g : Graph) (fork n : NodeId) : Prop :=
  (g.forkStates.getD n {}).isOpen fork = true

/-- A node learns of the fork over a connection. -/
def Carries (g : Graph) (fork : NodeId) (c : Connection) : Prop :=
  (c.source = fork ∧ g.isFork fork = true) ∨ g.IsOpenAt fork c.source

/-- The branches that meet at a node. -/
def branchesAt (g : Graph) (n : NodeId) : List Branch :=
  (g.node n).inputs.flatMap (g.branchesOver g.forkStates)

/-- An open branch is tracked with all that was joined of it, and not all of it was. -/
theorem mem_opened_iff {g : Graph} (hg : g.Numbered) {n : NodeId} (hn : n < g.size) {b : Branch} :
    b ∈ (g.forkStates.getD n {}).opened ↔
      ∃ seen, ((g.branchesAt n).foldl meet Table.empty).find? b.fork = some (b.joined, seen) ∧
        g.isClosedBy b.fork b.joined = false := by
  rw [forkStates_getD hg hn]
  unfold forkState branchesAt
  dsimp only
  rw [List.mem_map]
  constructor
  · rintro ⟨⟨fork, joined, seen⟩, he, rfl⟩
    obtain ⟨he, hclosed⟩ := List.mem_filter.1 he
    exact ⟨seen, Table.mem_entries_iff.1 he, by simpa using hclosed⟩
  · rintro ⟨seen, hfind, hclosed⟩
    refine ⟨(b.fork, b.joined, seen), List.mem_filter.2 ⟨?_, by simpa using hclosed⟩, rfl⟩
    exact Table.mem_entries_iff.2 hfind

/-- The connection of a fork that a branch starts with is found by its number. -/
theorem exists_findIdx? {g : Graph} (hg : g.Numbered) {n : NodeId} {c : Connection}
    (hc : c ∈ (g.node n).inputs) : ∃ position,
      (g.outgoing c.source).findIdx? (·.id == c.id) = some position ∧
        (g.outgoing c.source)[position]? = some c := by
  have hout : c ∈ g.outgoing c.source := mem_outgoing_iff.2 ⟨⟨n, hc⟩, rfl⟩
  cases hfind : (g.outgoing c.source).findIdx? (·.id == c.id) with
  | none =>
    have hnone := List.findIdx?_eq_none_iff.1 hfind c hout
    simp at hnone
  | some position =>
    obtain ⟨hlt, hid, -⟩ := List.findIdx?_eq_some_iff_getElem.1 hfind
    refine ⟨position, rfl, ?_⟩
    rw [List.getElem?_eq_getElem hlt]
    have hmem : (g.outgoing c.source)[position] ∈ g.connections :=
      List.mem_of_mem_filter (List.getElem_mem hlt)
    rw [hg.eq_of_id_eq hmem (mem_connections_iff.2 ⟨n, hc⟩) (by simpa using hid)]

theorem mem_branchesOver_iff {g : Graph} (hg : g.Numbered) {n : NodeId} {c : Connection}
    (hc : c ∈ (g.node n).inputs) {b : Branch} : b ∈ g.branchesOver g.forkStates c ↔
      b ∈ (g.forkStates.getD c.source {}).opened ∨
        (g.isFork c.source = true ∧ ∃ position, (g.outgoing c.source)[position]? = some c ∧
          b = ⟨c.source, .ofList [position]⟩) := by
  obtain ⟨position, hfind, hget⟩ := exists_findIdx? hg hc
  unfold branchesOver
  dsimp only
  cases hfork : g.isFork c.source with
  | false => simp
  | true =>
    rw [if_pos rfl, hfind]
    dsimp only
    rw [List.mem_append, List.mem_singleton]
    constructor
    · rintro (h | h)
      · exact .inl h
      · exact .inr ⟨rfl, position, hget, h⟩
    · rintro (h | ⟨-, position', hget', rfl⟩)
      · exact .inl h
      · have hlt := (List.getElem?_eq_some_iff.1 hget).1
        obtain rfl : position' = position :=
          ((List.getElem?_inj hlt (hg.nodup_outgoing c.source)).1 (by rw [hget, hget'])).symm
        exact .inr rfl

/-- The branches that come over a connection are those of the forks it carries. -/
theorem exists_mem_branchesOver_iff {g : Graph} (hg : g.Numbered) {n : NodeId} {c : Connection}
    (hc : c ∈ (g.node n).inputs) {fork : NodeId} :
    (∃ b ∈ g.branchesOver g.forkStates c, b.fork = fork) ↔ g.Carries fork c := by
  unfold Carries IsOpenAt ForkState.isOpen
  rw [List.any_eq_true]
  constructor
  · rintro ⟨b, hb, rfl⟩
    rcases (mem_branchesOver_iff hg hc).1 hb with hb | ⟨hfork, -, -, rfl⟩
    · exact .inr ⟨b, hb, by simp⟩
    · exact .inl ⟨rfl, hfork⟩
  · rintro (⟨rfl, hfork⟩ | ⟨b, hb, hfork⟩)
    · obtain ⟨position, -, hget⟩ := exists_findIdx? hg hc
      exact ⟨_, (mem_branchesOver_iff hg hc).2 (.inr ⟨hfork, position, hget, rfl⟩), rfl⟩
    · exact ⟨b, (mem_branchesOver_iff hg hc).2 (.inl hb), by simpa using hfork⟩

/-- A node knows of a fork only what came over one of its inputs. -/
theorem exists_carries_of_isOpenAt {g : Graph} (hg : g.Numbered) {fork n : NodeId}
    (hn : n < g.size) (h : g.IsOpenAt fork n) : ∃ c ∈ (g.node n).inputs, g.Carries fork c := by
  unfold IsOpenAt ForkState.isOpen at h
  obtain ⟨b, hb, hfork⟩ := List.any_eq_true.1 h
  obtain ⟨seen, hfind, -⟩ := (mem_opened_iff hg hn).1 hb
  have hsome : ((g.branchesAt n).foldl meet Table.empty).find? b.fork ≠ none := by
    rw [hfind]
    simp
  rw [← Option.isSome_iff_ne_none, isSome_find?_foldl_meet] at hsome
  rcases hsome with hsome | ⟨b', hb', hfork'⟩
  · simp at hsome
  · obtain ⟨c, hc, hbc⟩ := List.mem_flatMap.1 hb'
    obtain rfl : b.fork = fork := by simpa using hfork
    exact ⟨c, hc, (exists_mem_branchesOver_iff hg hc).1 ⟨b', hbc, hfork'⟩⟩

/-! ## §4 What has met at a node -/

/-- All connections of the fork have met at a node. -/
def IsClosedAt (g : Graph) (fork n : NodeId) : Prop :=
  fork ∈ (g.forkStates.getD n {}).closedHere

/-- What has been joined of a fork at a node, closed or not. -/
def Meets (g : Graph) (fork n : NodeId) (joined : FieldSet) : Prop :=
  ∃ seen, ((g.branchesAt n).foldl meet Table.empty).find? fork = some (joined, seen)

variable {g : Graph} {fork n : NodeId} {joined : FieldSet}

theorem isOpenAt_iff_meets (hg : g.Numbered) (hn : n < g.size) :
    g.IsOpenAt fork n ↔ ∃ joined, g.Meets fork n joined ∧ g.isClosedBy fork joined = false := by
  unfold IsOpenAt ForkState.isOpen
  rw [List.any_eq_true]
  constructor
  · rintro ⟨b, hb, hfork⟩
    obtain rfl : b.fork = fork := by simpa using hfork
    obtain ⟨seen, hfind, hclosed⟩ := (mem_opened_iff hg hn).1 hb
    exact ⟨b.joined, ⟨seen, hfind⟩, hclosed⟩
  · rintro ⟨joined, ⟨seen, hfind⟩, hclosed⟩
    exact ⟨⟨fork, joined⟩, (mem_opened_iff hg hn).2 ⟨seen, hfind, hclosed⟩, by simp⟩

theorem isClosedAt_iff_meets (hg : g.Numbered) (hn : n < g.size) :
    g.IsClosedAt fork n ↔ ∃ joined, g.Meets fork n joined ∧ g.isClosedBy fork joined = true := by
  unfold IsClosedAt
  rw [forkStates_getD hg hn]
  unfold forkState
  dsimp only
  rw [List.mem_map]
  constructor
  · rintro ⟨⟨fork, joined, seen⟩, he, rfl⟩
    obtain ⟨he, hclosed⟩ := List.mem_filter.1 he
    exact ⟨joined, ⟨seen, Table.mem_entries_iff.1 he⟩, by simpa using hclosed⟩
  · rintro ⟨joined, ⟨seen, hfind⟩, hclosed⟩
    exact ⟨(fork, joined, seen),
      List.mem_filter.2 ⟨Table.mem_entries_iff.2 hfind, by simpa using hclosed⟩, rfl⟩

/-- Of a fork something meets at a node if it comes in over a connection. -/
theorem exists_meets_iff (hg : g.Numbered) :
    (∃ joined, g.Meets fork n joined) ↔ ∃ c ∈ (g.node n).inputs, g.Carries fork c := by
  have hsome : (∃ joined, g.Meets fork n joined) ↔
      (((g.branchesAt n).foldl meet Table.empty).find? fork).isSome = true := by
    rw [Option.isSome_iff_exists]
    exact ⟨fun ⟨joined, seen, h⟩ => ⟨_, h⟩, fun ⟨e, h⟩ => ⟨e.1, e.2, h⟩⟩
  rw [hsome, isSome_find?_foldl_meet]
  constructor
  · rintro (h | ⟨b, hb, hfork⟩)
    · simp at h
    · obtain ⟨c, hc, hb⟩ := List.mem_flatMap.1 hb
      exact ⟨c, hc, (exists_mem_branchesOver_iff hg hc).1 ⟨b, hb, hfork⟩⟩
  · rintro ⟨c, hc, hcarries⟩
    obtain ⟨b, hb, hfork⟩ := (exists_mem_branchesOver_iff hg hc).2 hcarries
    exact .inr ⟨b, List.mem_flatMap.2 ⟨c, hc, hb⟩, hfork⟩

/-- A connection of a fork is joined at a node if it leads there, or if it is joined at a source
at which the fork is still open. -/
theorem Meets.mem_iff (hg : g.Numbered) (h : g.Meets fork n joined) (hfork : g.isFork fork = true)
    {f : Nat} : f ∈ joined ↔
      (∃ c ∈ (g.node n).inputs, (g.outgoing fork)[f]? = some c) ∨
        ∃ c ∈ (g.node n).inputs, ∃ joined', g.Meets fork c.source joined' ∧
          g.isClosedBy fork joined' = false ∧ f ∈ joined' := by
  obtain ⟨seen, hfind⟩ := h
  rw [mem_foldl_meet_iff hfind]
  constructor
  · rintro (⟨e, he, -⟩ | ⟨b, hb, rfl, hf⟩)
    · simp at he
    · obtain ⟨c, hc, hb⟩ := List.mem_flatMap.1 hb
      rcases (mem_branchesOver_iff hg hc).1 hb with hb | ⟨-, position, hget, rfl⟩
      · obtain ⟨seen', hfind', hclosed⟩ := (mem_opened_iff hg (hg.source_lt_size hc)).1 hb
        exact .inr ⟨c, hc, b.joined, ⟨seen', hfind'⟩, hclosed, hf⟩
      · obtain rfl : f = position := by simpa using hf
        exact .inl ⟨c, hc, hget⟩
  · rintro (⟨c, hc, hget⟩ | ⟨c, hc, joined', ⟨seen', hfind'⟩, hclosed, hf⟩)
    · obtain ⟨-, rfl⟩ := mem_outgoing_iff.1 (List.mem_of_getElem? hget)
      refine .inr ⟨⟨c.source, .ofList [f]⟩, List.mem_flatMap.2 ⟨c, hc, ?_⟩, rfl, by simp⟩
      exact (mem_branchesOver_iff hg hc).2 (.inr ⟨hfork, f, hget, rfl⟩)
    · refine .inr ⟨⟨fork, joined'⟩, List.mem_flatMap.2 ⟨c, hc, ?_⟩, rfl, hf⟩
      exact (mem_branchesOver_iff hg hc).2
        (.inl ((mem_opened_iff hg (hg.source_lt_size hc)).2 ⟨seen', hfind', hclosed⟩))

/-! ## §5 Open ways -/

/-- Data of the fork flows over one of its connections into a node, and the fork is open at every
node that it passes before. -/
inductive OpenWay (g : Graph) (fork : NodeId) (d : Connection) : NodeId → Prop
  | enter {n : NodeId} (h : d ∈ (g.node n).inputs) : OpenWay g fork d n
  | pass {n : NodeId} {c : Connection} (hc : c ∈ (g.node n).inputs)
      (hopen : g.IsOpenAt fork c.source) (h : OpenWay g fork d c.source) : OpenWay g fork d n

variable {d : Connection}

theorem OpenWay.reaches (hg : g.Numbered) (h : g.OpenWay fork d n) : g.Reaches d.target n := by
  induction h with
  | enter h =>
    rw [hg.target_eq _ d h]
    exact Reaches.refl g _
  | pass hc _ _ ih => exact ih.trans (reaches_of_mem hc)

/-- Something of a fork meets at a node if one of its connections has an open way to the node. -/
theorem exists_meets_iff_openWay (hg : g.Numbered) : ∀ (n : Nat), n < g.size →
    ((∃ joined, g.Meets fork n joined) ↔
      g.isFork fork = true ∧ ∃ d ∈ g.outgoing fork, g.OpenWay fork d n) := by
  intro n
  induction n using Nat.strongRecOn with
  | _ n ih =>
    intro hn
    rw [exists_meets_iff hg]
    constructor
    · rintro ⟨c, hc, ⟨rfl, hfork⟩ | hopen⟩
      · exact ⟨hfork, c, mem_outgoing_iff.2 ⟨⟨n, hc⟩, rfl⟩, .enter hc⟩
      · have hsize := hg.source_lt_size hc
        obtain ⟨joined, hmeets, -⟩ := (isOpenAt_iff_meets hg hsize).1 hopen
        obtain ⟨hfork, d, hd, hway⟩ := (ih c.source (hg.source_lt n c hc) hsize).1 ⟨joined, hmeets⟩
        exact ⟨hfork, d, hd, .pass hc hopen hway⟩
    · rintro ⟨hfork, d, hd, hway⟩
      cases hway with
      | enter h => exact ⟨d, h, .inl ⟨(mem_outgoing_iff.1 hd).2, hfork⟩⟩
      | pass hc hopen _ => exact ⟨_, hc, .inr hopen⟩

/-- The connections joined at a node are those with an open way to it. -/
theorem Meets.mem_iff_openWay (hg : g.Numbered) : ∀ (n : Nat), n < g.size →
    ∀ {joined : FieldSet}, g.Meets fork n joined → ∀ {f : Nat},
      (f ∈ joined ↔ ∃ d, (g.outgoing fork)[f]? = some d ∧ g.OpenWay fork d n) := by
  intro n
  induction n using Nat.strongRecOn with
  | _ n ih =>
    intro hn joined hmeets f
    have hfork := ((exists_meets_iff_openWay hg n hn).1 ⟨joined, hmeets⟩).1
    rw [hmeets.mem_iff hg hfork]
    constructor
    · rintro (⟨c, hc, hget⟩ | ⟨c, hc, joined', hmeets', hclosed, hf⟩)
      · exact ⟨c, hget, .enter hc⟩
      · have hsize := hg.source_lt_size hc
        obtain ⟨d, hd, hway⟩ := (ih c.source (hg.source_lt n c hc) hsize hmeets').1 hf
        exact ⟨d, hd, .pass hc ((isOpenAt_iff_meets hg hsize).2 ⟨joined', hmeets', hclosed⟩) hway⟩
    · rintro ⟨d, hd, hway⟩
      cases hway with
      | enter h => exact .inl ⟨d, h, hd⟩
      | @pass _ c hc hopen hway =>
        have hsize := hg.source_lt_size hc
        obtain ⟨joined', hmeets', hclosed⟩ := (isOpenAt_iff_meets hg hsize).1 hopen
        exact .inr ⟨c, hc, joined', hmeets', hclosed,
          (ih c.source (hg.source_lt n c hc) hsize hmeets').2 ⟨d, hd, hway⟩⟩

/-- A fork is closed by what was joined if every connection was. -/
theorem isClosedBy_iff (hjoined : ∀ f ∈ joined, f < (g.outgoing fork).length) :
    g.isClosedBy fork joined = true ↔ ∀ f < (g.outgoing fork).length, f ∈ joined := by
  have hnodup : joined.toList.Nodup := joined.ascending.imp fun h => Nat.ne_of_lt h
  have hsub : joined.toList.Subperm (List.range (g.outgoing fork).length) :=
    hnodup.subperm fun f hf => List.mem_range.2 (hjoined f hf)
  unfold isClosedBy FieldSet.size
  rw [beq_iff_eq]
  constructor
  · intro hlen f hf
    have hperm := hsub.perm_of_length_le (Nat.le_of_eq (by rw [List.length_range, hlen]))
    exact hperm.mem_iff.2 (List.mem_range.2 hf)
  · intro hall
    have hsub' : (List.range (g.outgoing fork).length).Subperm joined.toList :=
      List.nodup_range.subperm fun f hf => hall f (List.mem_range.1 hf)
    have h := hsub.length_le
    have h' := hsub'.length_le
    rw [List.length_range] at h h'
    exact Nat.le_antisymm h h'

theorem Meets.isClosedBy_iff (hg : g.Numbered) (hn : n < g.size) (h : g.Meets fork n joined) :
    g.isClosedBy fork joined = true ↔ ∀ d ∈ g.outgoing fork, g.OpenWay fork d n := by
  rw [Graph.isClosedBy_iff]
  · constructor
    · intro hall d hd
      obtain ⟨f, hf, hget⟩ := List.mem_iff_getElem.1 hd
      obtain ⟨d', hd', hway⟩ := (h.mem_iff_openWay hg n hn).1 (hall f hf)
      rw [List.getElem?_eq_getElem hf, hget] at hd'
      exact Option.some.inj hd' ▸ hway
    · intro hall f hf
      exact (h.mem_iff_openWay hg n hn).2
        ⟨_, List.getElem?_eq_getElem hf, hall _ (List.getElem_mem hf)⟩
  · intro f hf
    obtain ⟨d, hd, -⟩ := (h.mem_iff_openWay hg n hn).1 hf
    exact (List.getElem?_eq_some_iff.1 hd).1

/-- A fork is closed at a node if all of its connections have open ways to the node. -/
theorem isClosedAt_iff (hg : g.Numbered) (hn : n < g.size) : g.IsClosedAt fork n ↔
    g.isFork fork = true ∧ ∀ d ∈ g.outgoing fork, g.OpenWay fork d n := by
  rw [isClosedAt_iff_meets hg hn]
  constructor
  · rintro ⟨joined, hmeets, hclosed⟩
    exact ⟨((exists_meets_iff_openWay hg n hn).1 ⟨joined, hmeets⟩).1,
      (hmeets.isClosedBy_iff hg hn).1 hclosed⟩
  · rintro ⟨hfork, hall⟩
    obtain ⟨d, hd⟩ : ∃ d, d ∈ g.outgoing fork := by
      refine List.exists_mem_of_length_pos ?_
      have hlen : 1 < (g.outgoing fork).length := by simpa [isFork] using hfork
      exact Nat.lt_of_succ_lt hlen
    obtain ⟨joined, hmeets⟩ := (exists_meets_iff_openWay hg n hn).2 ⟨hfork, d, hd, hall d hd⟩
    exact ⟨joined, hmeets, (hmeets.isClosedBy_iff hg hn).2 hall⟩

/-- A fork is open at a node if some of its connections have open ways to the node and some have
none. -/
theorem isOpenAt_iff (hg : g.Numbered) (hn : n < g.size) : g.IsOpenAt fork n ↔
    g.isFork fork = true ∧ (∃ d ∈ g.outgoing fork, g.OpenWay fork d n) ∧
      ∃ d ∈ g.outgoing fork, ¬ g.OpenWay fork d n := by
  rw [isOpenAt_iff_meets hg hn]
  constructor
  · rintro ⟨joined, hmeets, hclosed⟩
    obtain ⟨hfork, hway⟩ := (exists_meets_iff_openWay hg n hn).1 ⟨joined, hmeets⟩
    refine ⟨hfork, hway, ?_⟩
    by_contra hnone
    push Not at hnone
    rw [(hmeets.isClosedBy_iff hg hn).2 hnone] at hclosed
    simp at hclosed
  · rintro ⟨hfork, hway, d, hd, hnot⟩
    obtain ⟨joined, hmeets⟩ := (exists_meets_iff_openWay hg n hn).2 ⟨hfork, hway⟩
    refine ⟨joined, hmeets, ?_⟩
    by_contra hclosed
    exact hnot ((hmeets.isClosedBy_iff hg hn).1 (by simpa using hclosed) d hd)

/-- What is joined of an open fork are its connections with an open way to the node. -/
theorem mem_joined_iff (hg : g.Numbered) (hn : n < g.size) {b : Branch}
    (hb : b ∈ (g.forkStates.getD n {}).opened) {f : Nat} :
    f ∈ b.joined ↔ ∃ d, (g.outgoing b.fork)[f]? = some d ∧ g.OpenWay b.fork d n := by
  obtain ⟨seen, hfind, -⟩ := (mem_opened_iff hg hn).1 hb
  exact Meets.mem_iff_openWay hg n hn ⟨seen, hfind⟩

/-- As long as a connection of a fork leads around a node below it, the fork is open there. -/
theorem isOpenAt_of_bypass (hg : g.Numbered) (hfork : g.isFork fork = true)
    (hd : d ∈ g.outgoing fork) :
    ∀ (n : Nat), n < g.size → g.Reaches fork n → n ≠ fork → ¬ g.Reaches d.target n →
      g.IsOpenAt fork n := by
  intro n
  induction n using Nat.strongRecOn with
  | _ n ih =>
    intro hn hreach hne hbypass
    refine (isOpenAt_iff hg hn).2 ⟨hfork, ?_, d, hd, fun hway => hbypass (hway.reaches hg)⟩
    rcases hreach.cases_target with heq | ⟨c, hc, hfc⟩
    · exact absurd heq.symm hne
    · by_cases hsource : c.source = fork
      · exact ⟨c, mem_outgoing_iff.2 ⟨⟨n, hc⟩, hsource⟩, .enter hc⟩
      · have hsize := hg.source_lt_size hc
        have hopen := ih c.source (hg.source_lt n c hc) hsize hfc hsource
          fun h => hbypass (h.trans (reaches_of_mem hc))
        obtain ⟨-, ⟨e, he, hway⟩, -⟩ := (isOpenAt_iff hg hsize).1 hopen
        exact ⟨e, he, .pass hc hopen hway⟩

/-- A node with a connection that leads around a node below it is a fork and open there. -/
theorem isOpenAt_of_leaves (hg : g.Numbered) (hn : n < g.size) (hreach : g.Reaches fork n)
    (hne : fork ≠ n) (hd : d ∈ g.outgoing fork) (hleaves : ¬ g.Reaches d.target n) :
    g.IsOpenAt fork n := by
  refine isOpenAt_of_bypass hg ?_ hd n hn hreach hne.symm hleaves
  rcases Relation.ReflTransGen.cases_head hreach with heq | ⟨b, ⟨e, he, hsource⟩, hbn⟩
  · exact absurd heq hne
  · refine isFork_of_ne hd (mem_outgoing_iff.2 ⟨⟨b, he⟩, hsource⟩) ?_
    rintro rfl
    rw [hg.target_eq b d he] at hleaves
    exact hleaves hbn

end Graph

end FlowPlanner
