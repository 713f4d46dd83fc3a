/-
FlowPlanner.Proofs.Description.Explain — what is drawn of a description.

Drawing a description follows its references: those to the sinks, and in every entry drawn
in full those to its inputs. A reference gives one line, in full where its position was
not shown yet and by name where it was (`Description.headings`). References lead to
earlier entries, so drawing never runs out of height, and every entry is referred to, so
each is drawn in full once (`Description.Grounded.drawnOnce`). What is printed is a
heading and then the text of line after line, and the text of a line says what the line
stands for (`Line.tells`). Together with the listing this makes a description a copy of
the plan that was chosen, and its text a copy of the description
(`Outcome.description_copies_best`).
-/
import FlowPlanner.Description.Explain
import FlowPlanner.Proofs.Description.Listing
import FlowPlanner.Proofs.Search.Feasibility

namespace FlowPlanner

variable {α : Type}

/-! ## §1 References and their lines -/

namespace Line

/-- The line says how an entry reaches the one above. -/
def isInput : Line α → Bool
  | input _ _ _ => true
  | _ => false

/-- The entry that a line shows in full. -/
def inFull? : Line α → Option (NodeDescription α)
  | node _ n => some n
  | _ => none

end Line

namespace Description

/-- The lines of a tree that stand for entries. -/
def Tree.headings (t : Tree α) : List (Line α) := t.lines.filter (!·.isInput)

/-- The entries that a tree shows in full. -/
def Tree.inFull (t : Tree α) : List (NodeDescription α) := t.lines.filterMap (·.inFull?)

variable (d : Description α)

/-- The positions that an entry names as its inputs. -/
def sourcesAt (position : Nat) : List Nat :=
  match d.nodes[position]? with
  | some node => node.inputs.map (·.source)
  | none => []

/-- The positions that a description refers to, as sinks or as inputs. -/
def references : List Nat := d.sinks ++ (List.range d.nodes.length).flatMap d.sourcesAt

/-- The line of a reference to a position at a depth: in full, unless the position was shown. -/
def heading? (shown : List Nat) (ref : Nat × Nat) : Option (Line α) :=
  d.nodes[ref.1]?.map fun node =>
    if ref.1 ∈ shown then .shared ref.2 node.name else .node ref.2 node

/-- The lines of references that are followed one after the other. -/
def headings : List Nat → List (Nat × Nat) → List (Line α)
  | _, [] => []
  | shown, ref :: refs => (d.heading? shown ref).toList ++ headings (ref.1 :: shown) refs

/-- References lead to entries, those of an entry to earlier ones; and every entry is referred
to. -/
structure Grounded (d : Description α) : Prop where
  sinks_lt : ∀ i ∈ d.sinks, i < d.nodes.length
  sources_lt : ∀ i, ∀ j ∈ d.sourcesAt i, j < i
  named : ∀ i < d.nodes.length, i ∈ d.references

variable {d}

theorem lt_length_of_mem_sourcesAt {i j : Nat} (h : j ∈ d.sourcesAt i) : i < d.nodes.length := by
  unfold sourcesAt at h
  split at h
  · rename_i hnode
    exact (List.getElem?_eq_some_iff.1 hnode).1
  · simp at h

theorem Grounded.lt_of_mem_sourcesAt (h : d.Grounded) {i j : Nat} (hj : j ∈ d.sourcesAt i) :
    j < d.nodes.length :=
  Nat.lt_trans (h.sources_lt i j hj) (lt_length_of_mem_sourcesAt hj)

/-- It only counts which positions were shown. -/
theorem headings_append {before after : List (Nat × Nat)} : ∀ {shown shown' : List Nat},
    (∀ x, x ∈ shown' ↔ x ∈ shown ∨ x ∈ before.map (·.1)) →
      d.headings shown (before ++ after) = d.headings shown before ++ d.headings shown' after := by
  induction before with
  | nil =>
    induction after with
    | nil => intro _ _ _; rfl
    | cons ref refs ih =>
      intro shown shown' h
      have hmem : ref.1 ∈ shown' ↔ ref.1 ∈ shown := by simpa using h ref.1
      have ih := @ih (ref.1 :: shown) (ref.1 :: shown') (by
        intro x
        simp only [List.mem_cons, h x, List.map_nil, List.not_mem_nil, or_false])
      unfold headings heading?
      simp only [hmem]
      exact congrArg _ ih
  | cons ref refs ih =>
    intro shown shown' h
    have ih := @ih (ref.1 :: shown) shown' (by
      intro x
      rw [h x, List.map_cons, List.mem_cons, List.mem_cons]
      tauto)
    show (d.heading? shown ref).toList ++ d.headings (ref.1 :: shown) (refs ++ after) =
      (d.heading? shown ref).toList ++ d.headings (ref.1 :: shown) refs ++ _
    rw [ih, List.append_assoc]

/-! ## §2 Drawing -/

/-- From one tree to another some references were followed, first those to the targets and then
those of the entries that were drawn in full on the way. -/
structure Draws (d : Description α) (t t' : Tree α) (targets : List Nat) (refs : List (Nat × Nat))
    (drawn : List Nat) : Prop where
  shown_eq : t'.shown = drawn ++ t.shown
  mem_shown : ∀ x, x ∈ t'.shown ↔ x ∈ t.shown ∨ x ∈ refs.map (·.1)
  nodup : t.shown.Nodup → t'.shown.Nodup
  refs_perm : (refs.map (·.1)).Perm (targets ++ drawn.flatMap d.sourcesAt)
  headings_eq : t'.headings = t.headings ++ d.headings t.shown refs
  inFull_eq : t'.inFull = t.inFull ++ drawn.reverse.filterMap (d.nodes[·]?)

theorem Draws.refl (d : Description α) (t : Tree α) : d.Draws t t [] [] [] :=
  ⟨rfl, by simp, fun h => h, .nil, (List.append_nil _).symm, (List.append_nil _).symm⟩

/-- How an entry reaches the one above is nobody's heading. -/
theorem Draws.input (d : Description α) (t : Tree α) (depth : Nat) (ship : Ship)
    (work : LocalStrategy) : d.Draws t (t.add (.input depth ship work)) [] [] [] := by
  refine ⟨rfl, by simp [Tree.add], fun h => h, .nil, ?_, ?_⟩
  · simp [Tree.headings, Tree.add, Line.isInput, headings]
  · simp [Tree.inFull, Tree.add, Line.inFull?]

theorem Draws.trans {t t₁ t₂ : Tree α} {ts ts' drawn drawn' : List Nat}
    {refs refs' : List (Nat × Nat)} (h : d.Draws t t₁ ts refs drawn)
    (h' : d.Draws t₁ t₂ ts' refs' drawn') :
    d.Draws t t₂ (ts ++ ts') (refs ++ refs') (drawn' ++ drawn) where
  shown_eq := by rw [h'.shown_eq, h.shown_eq, List.append_assoc]
  mem_shown x := by
    rw [h'.mem_shown, h.mem_shown, List.map_append, List.mem_append, or_assoc]
  nodup ht := h'.nodup (h.nodup ht)
  refs_perm := by
    rw [List.map_append, List.flatMap_append]
    refine (h.refs_perm.append h'.refs_perm).trans (List.perm_iff_count.2 fun x => ?_)
    simp only [List.count_append]
    omega
  headings_eq := by
    rw [h'.headings_eq, h.headings_eq, List.append_assoc, headings_append h.mem_shown]
  inFull_eq := by
    rw [h'.inFull_eq, h.inFull_eq, List.append_assoc, List.reverse_append, List.filterMap_append]

/-- An entry that was shown is only named. -/
theorem Draws.shared {t : Tree α} {position : Nat} {node : NodeDescription α}
    (hnode : d.nodes[position]? = some node) (hshown : position ∈ t.shown) (depth : Nat) :
    d.Draws t (t.add (.shared depth node.name)) [position] [(position, depth)] [] := by
  refine ⟨rfl, ?_, fun h => h, .refl _, ?_, ?_⟩
  · intro x
    show x ∈ t.shown ↔ x ∈ t.shown ∨ x ∈ [position]
    rw [List.mem_singleton]
    exact ⟨.inl, fun h => h.elim id fun heq => heq ▸ hshown⟩
  · simp [Tree.headings, Tree.add, Line.isInput, headings, heading?, hnode, hshown]
  · simp [Tree.inFull, Tree.add, Line.inFull?]

/-- An entry that was not shown is drawn in full, and then what it reads. -/
theorem Draws.node {t t' : Tree α} {position depth : Nat} {node : NodeDescription α}
    (hnode : d.nodes[position]? = some node) (hshown : position ∉ t.shown)
    {refs : List (Nat × Nat)} {drawn : List Nat}
    (h : d.Draws ({ t with shown := position :: t.shown }.add (.node depth node)) t'
      (node.inputs.map (·.source)) refs drawn) :
    d.Draws t t' [position] ((position, depth) :: refs) (drawn ++ [position]) where
  shown_eq := by
    rw [h.shown_eq, List.append_assoc]
    rfl
  mem_shown x := by
    rw [h.mem_shown, List.map_cons, List.mem_cons]
    show x ∈ position :: t.shown ∨ _ ↔ _
    rw [List.mem_cons]
    tauto
  nodup ht := h.nodup (List.nodup_cons.2 ⟨hshown, ht⟩)
  refs_perm := by
    have hsources : d.sourcesAt position = node.inputs.map (·.source) := by
      unfold sourcesAt
      rw [hnode]
    rw [List.map_cons, List.singleton_append, List.flatMap_append, List.flatMap_singleton, hsources]
    exact (h.refs_perm.trans List.perm_append_comm).cons position
  headings_eq := by
    rw [h.headings_eq]
    simp [Tree.headings, Tree.add, Line.isInput, headings, heading?, hnode, hshown]
  inFull_eq := by
    rw [h.inFull_eq]
    simp [Tree.inFull, Tree.add, Line.inFull?, hnode]

/-- Following references in a row. -/
theorem draws_foldl {β : Type} (step : Tree α → β → Tree α) (target : β → Nat) :
    ∀ {xs : List β}, (∀ x ∈ xs, ∀ t, ∃ refs drawn, d.Draws t (step t x) [target x] refs drawn) →
      ∀ t, ∃ refs drawn, d.Draws t (xs.foldl step t) (xs.map target) refs drawn
  | [], _, t => ⟨[], [], .refl d t⟩
  | x :: xs, h, t => by
    obtain ⟨refs, drawn, hfirst⟩ := h x List.mem_cons_self t
    obtain ⟨refs', drawn', hrest⟩ :=
      draws_foldl step target (fun y hy => h y (List.mem_cons_of_mem x hy)) (step t x)
    exact ⟨_, _, hfirst.trans hrest⟩

/-- A height above the position is enough. -/
theorem Grounded.draws (hd : d.Grounded) : ∀ {height position : Nat}, position < height →
    position < d.nodes.length → ∀ depth t,
      ∃ refs drawn, d.Draws t (d.draw height depth t position) [position] refs drawn
  | 0, _, hheight, _, _, _ => absurd hheight (Nat.not_lt_zero _)
  | height + 1, position, hheight, hposition, depth, t => by
    have hnode := List.getElem?_eq_getElem hposition
    unfold draw
    rw [hnode]
    dsimp only
    split
    · rename_i hshown
      exact ⟨_, _, .shared hnode hshown depth⟩
    · rename_i hshown
      obtain ⟨refs, drawn, hinputs⟩ := draws_foldl
        (fun t (i : InputDescription) =>
          d.draw height (depth + 2) (t.add (.input depth i.ship i.work)) i.source)
        InputDescription.source (by
          intro input (hinput : input ∈ d.nodes[position].inputs) t
          have hmem : input.source ∈ d.sourcesAt position := by
            unfold sourcesAt
            rw [hnode]
            exact List.mem_map_of_mem hinput
          have hlt : input.source < height :=
            Nat.lt_of_lt_of_le (hd.sources_lt position _ hmem) (Nat.le_of_lt_succ hheight)
          obtain ⟨refs, drawn, hdraws⟩ := hd.draws hlt (hd.lt_of_mem_sourcesAt hmem) (depth + 2)
            (t.add (.input depth input.ship input.work))
          exact ⟨_, _, (Draws.input d t depth input.ship input.work).trans hdraws⟩)
        ({ t with shown := position :: t.shown }.add (.node depth d.nodes[position]))
      exact ⟨_, _, .node hnode hshown hinputs⟩

/-! ## §3 The lines of a description -/

/-- Every entry is shown in full once and named wherever it is referred to besides; all references
lead to entries. -/
structure DrawnOnce (d : Description α) : Prop where
  in_range : ∀ i ∈ d.references, i < d.nodes.length
  in_full : (d.lines.filterMap (·.inFull?)).Perm d.nodes
  headings : ∃ refs : List (Nat × Nat), (refs.map (·.1)).Perm d.references ∧
    d.lines.filter (!·.isInput) = d.headings [] refs

theorem Grounded.drawnOnce (hd : d.Grounded) : d.DrawnOnce := by
  obtain ⟨refs, drawn, hdraws⟩ := draws_foldl (d.draw d.nodes.length 0) id
    (fun i (hi : i ∈ d.sinks) t => hd.draws (hd.sinks_lt i hi) (hd.sinks_lt i hi) 0 t) {}
  have hshown := hdraws.shown_eq
  have hnodup := hdraws.nodup List.nodup_nil
  rw [List.append_nil] at hshown
  rw [hshown] at hnodup
  have hmem : ∀ x, x ∈ drawn ↔ x ∈ d.sinks ∨ ∃ y ∈ drawn, x ∈ d.sourcesAt y := by
    intro x
    rw [← hshown, hdraws.mem_shown, hdraws.refs_perm.mem_iff, List.map_id, List.mem_append,
      List.mem_flatMap, hshown]
    simp
  -- Entries are drawn from the last one down, for references lead to earlier ones.
  have hall : ∀ i < d.nodes.length, i ∈ drawn := by
    intro i hi
    induction hk : d.nodes.length - i using Nat.strongRecOn generalizing i with
    | _ k ih =>
      rcases List.mem_append.1 (hd.named i hi) with hsink | hinput
      · exact (hmem i).2 (.inl hsink)
      · obtain ⟨j, hj, hij⟩ := List.mem_flatMap.1 hinput
        have hlt := hd.sources_lt j i hij
        have hj := List.mem_range.1 hj
        exact (hmem i).2 (.inr ⟨j, ih (d.nodes.length - j)
          (hk ▸ Nat.sub_lt_sub_left hi hlt) j hj rfl, hij⟩)
  have hrange : ∀ i ∈ d.references, i < d.nodes.length := by
    intro i hi
    rcases List.mem_append.1 hi with hsink | hinput
    · exact hd.sinks_lt i hsink
    · obtain ⟨j, -, hij⟩ := List.mem_flatMap.1 hinput
      exact hd.lt_of_mem_sourcesAt hij
  have hdrawn : drawn.Perm (List.range d.nodes.length) := by
    refine (List.perm_ext_iff_of_nodup hnodup List.nodup_range).2 ?_
    intro i
    rw [List.mem_range]
    refine ⟨fun hi => ?_, hall i⟩
    rcases (hmem i).1 hi with hsink | ⟨y, -, hy⟩
    · exact hd.sinks_lt i hsink
    · exact hd.lt_of_mem_sourcesAt hy
  have hnodes : (List.range d.nodes.length).filterMap (d.nodes[·]?) = d.nodes := by
    rw [filterMap_getElem?_range, List.take_length]
  refine ⟨hrange, ?_, refs, ?_, hdraws.headings_eq⟩
  · have hfull := hdraws.inFull_eq
    unfold lines
    rw [show (d.sinks.foldl (d.draw d.nodes.length 0) {}).lines.filterMap (·.inFull?) =
      (d.sinks.foldl (d.draw d.nodes.length 0) {}).inFull from rfl, hfull]
    have hperm := ((List.reverse_perm drawn).trans hdrawn).filterMap (d.nodes[·]?)
    rwa [hnodes] at hperm
  · have hperm := hdraws.refs_perm
    rw [List.map_id] at hperm
    exact hperm.trans ((hdrawn.flatMap_right d.sourcesAt).append_left d.sinks)

/-! ## §4 Descriptions of plans -/

/-- The entry says of the plan's node what is known of it, and of the plan what was chosen. -/
structure Describes (g : Graph) (a : Analysis α) (e : NodeDescription α) (q : Plan α) : Prop where
  name : e.name = q.name
  kind : e.kind = (g.node q.node).kind
  driver : e.driver = q.driver
  parallelism : e.parallelism = (g.node q.node).parallelism
  placement : e.placement = q.placement
  arrangement : e.arrangement = q.arrangement
  estimates : e.estimates = a.estimates q.node
  cumulative : e.cumulative = q.cumulative

/-- A description lists the plans that a plan uses, one for each node that is no joiner; every entry
has all inputs of its plan, in their order, each by the position of its producer, which stands
before; and the sinks are those of the graph, in their order. -/
structure Copies (d : Description α) (g : Graph) (a : Analysis α) (root : Plan α) : Prop where
  uses : ∀ q ∈ listed g root, root.Uses q
  nodes : ((listed g root).map (·.node)).Perm
    ((List.range g.size).filter fun n => !(g.node n).kind.isJoiner)
  entries : List.Forall₂ (Describes g a) d.nodes (listed g root)
  inputs : ∀ (i : Nat) (e : NodeDescription α) (q : Plan α), d.nodes[i]? = some e →
    (listed g root)[i]? = some q → List.Forall₂ (fun input ch => input.Names (listed g root) i ch)
      e.inputs q.inputs
  /-- It makes no difference that an input is looked up before later plans are listed. -/
  lookup : ∀ (i : Nat) (q : Plan α), (listed g root)[i]? = some q → ∀ ch ∈ q.inputs,
    input? ((listed g root).take i) ch = input? (listed g root) ch
  sinks_eq : g.sinks = g.sinkNodes
  sinks : List.Forall₂ (fun i s => ∃ q, (listed g root)[i]? = some q ∧ q.node = s) d.sinks g.sinks

variable [Quantity α] {p : Problem α} {S : Plan α → Prop} {q : Plan α}

/-- What stands at a position of a description is the entry of the plan listed there. -/
theorem getElem?_ofPlan {g : Graph} {a : Analysis α} {w : Weights α} {i : Nat}
    {e : NodeDescription α} : (ofPlan g a w q).nodes[i]? = some e ↔
      ∃ r, (listed g q)[i]? = some r ∧ entry g a (listed g q) r = e := by
  unfold ofPlan
  rw [List.getElem?_map, Option.map_eq_some_iff]

theorem sourcesAt_ofPlan {g : Graph} {a : Analysis α} {w : Weights α} {i : Nat} {r : Plan α}
    (hr : (listed g q)[i]? = some r) : (ofPlan g a w q).sourcesAt i =
      (r.inputs.filterMap (input? (listed g q))).map (·.source) := by
  unfold sourcesAt
  rw [getElem?_ofPlan.2 ⟨r, hr, rfl⟩]
  rfl

theorem grounded_ofPlan (h : p.Catalogue S) (hg : p.graph.WellFormed)
    (hforks : p.analysis.forks = p.graph.forkStates) (hdrains : p.graph.Drains) (hq : S q)
    (hroot : q.node = p.graph.root) (w : Weights α) :
    (ofPlan p.graph p.analysis w q).Grounded where
  sinks_lt i hi := by
    obtain ⟨e, he, -⟩ := mem_sinkPositions.1 hi
    exact (List.getElem?_eq_some_iff.1 he).1
  sources_lt i j hj := by
    have hi := lt_length_of_mem_sourcesAt hj
    obtain ⟨r, hr, -⟩ := getElem?_ofPlan.1 (List.getElem?_eq_getElem hi)
    rw [sourcesAt_ofPlan hr] at hj
    obtain ⟨input, hinput, rfl⟩ := List.mem_map.1 hj
    obtain ⟨ch, -, hnames⟩ := exists_of_forall₂_left (h.inputs_listed hg hdrains hq hr) hinput
    exact hnames.earlier
  named i hi := by
    obtain ⟨r, hr, hentry⟩ := getElem?_ofPlan.1 (List.getElem?_eq_getElem hi)
    cases hsink : (p.graph.node r.node).kind.isSink with
    | true =>
      refine List.mem_append_left _ (mem_sinkPositions.2 ⟨_, List.getElem?_eq_getElem hi, ?_⟩)
      rw [← hentry]
      exact hsink
    | false =>
      obtain ⟨s, hs, ch, hch, rfl⟩ := h.exists_reader_listed hg hforks hdrains hq hroot
        (List.mem_of_getElem? hr) hsink
      obtain ⟨k, hk⟩ := List.mem_iff_getElem?.1 hs
      obtain ⟨input, hinput, hnames⟩ :=
        exists_of_forall₂_left (h.inputs_listed hg hdrains hq hk).flip hch
      -- A plan is listed once, so the input names this position.
      have hnodup := List.Nodup.of_map (fun r : Plan α => r.id) (h.nodup_listed hg hq)
      obtain ⟨hlt, -⟩ := List.getElem?_eq_some_iff.1 hnames.producer
      have heq : input.source = i :=
        (List.getElem?_inj hlt hnodup).1 (hnames.producer.trans hr.symm)
      have hlength : k < (ofPlan p.graph p.analysis w q).nodes.length :=
        (List.getElem?_eq_some_iff.1 (getElem?_ofPlan.2 ⟨s, hk, rfl⟩)).1
      refine List.mem_append_right _ (List.mem_flatMap.2 ⟨k, List.mem_range.2 hlength, ?_⟩)
      rw [sourcesAt_ofPlan hk, ← heq]
      exact List.mem_map_of_mem hinput

theorem copies_ofPlan (h : p.Catalogue S) (hg : p.graph.WellFormed)
    (hforks : p.analysis.forks = p.graph.forkStates) (hdrains : p.graph.Drains) (hq : S q)
    (hroot : q.node = p.graph.root) (w : Weights α) :
    (ofPlan p.graph p.analysis w q).Copies p.graph p.analysis q where
  uses r hr := ((h.mem_listed hg hq).1 hr).1
  nodes := h.nodes_listed hg hforks hq hroot
  entries := by
    unfold ofPlan
    rw [List.forall₂_map_left_iff, List.forall₂_same]
    exact fun r _ => ⟨rfl, rfl, rfl, rfl, rfl, rfl, rfl, rfl⟩
  inputs i e r he hr := by
    obtain ⟨r', hr', rfl⟩ := getElem?_ofPlan.1 he
    rw [hr] at hr'
    obtain rfl := Option.some.inj hr'
    exact h.inputs_listed hg hdrains hq hr
  lookup i r hr ch hch := by
    obtain ⟨j, -, -, hall, hbefore⟩ := h.input?_listed hg hdrains hq hr hch
    rw [hall, hbefore]
  sinks_eq := hdrains.sinks_eq
  sinks := by
    rw [← h.sinks_listed hg hforks hdrains hq hroot, List.forall₂_map_right_iff]
    refine (forall₂_sinkPositions (entry p.graph p.analysis (listed p.graph q))
      (listed p.graph q)).imp ?_
    exact fun i r hr => ⟨r, hr, rfl⟩

end Description

/-- The description of a chosen plan is a copy of it, and drawing it shows every entry in full
once. -/
theorem Outcome.copies_and_drawnOnce [Quantity α] {o : Optimizer α} {job : Job} {clock : Nat → Nat}
    {out : Outcome α} (hrun : o.run job clock = .ok out) :
    out.description.Copies out.problem.graph out.problem.analysis out.best ∧
      out.description.DrawnOnce := by
  obtain ⟨p, hprepare, -⟩ := exists_ok_of_bind hrun
  obtain ⟨plans, s, first, rest, hcand, hrank, rfl⟩ := o.run_ok hprepare hrun
  have hp := (o.prepared hprepare).withClock clock
  obtain ⟨g, hbuild, rfl⟩ := o.prepare_ok hprepare
  have hdrains := Graph.drains_of_build hbuild
  have hmem : first.plan ∈ plans := (o.mem_ranking.1 (hrank ▸ List.mem_cons_self)).1
  obtain ⟨st, hst, -, rfl, -⟩ := Problem.exists_stage_of_ok hp.wellFormed hcand
  obtain ⟨hmade, hroot⟩ := (hst.consistent hp.wellFormed).kept_made _ _ hmem
  have hcatalogue := hst.catalogue hp.wellFormed
  exact ⟨Description.copies_ofPlan hcatalogue hp.wellFormed hp.forks_eq hdrains hmade hroot _,
    (Description.grounded_ofPlan hcatalogue hp.wellFormed hp.forks_eq hdrains hmade hroot
      _).drawnOnce⟩

/-! ## §5 The text of a description -/

namespace Text

/-- The parts stand in the text, one after the other. -/
def Says : String → List String → Prop
  | _, [] => True
  | text, part :: parts => ∃ before rest, text = before ++ part ++ rest ∧ Says rest parts

theorem Says.cons {rest : String} {parts : List String} (h : Says rest parts)
    (before part : String) : Says (before ++ part ++ rest) (part :: parts) :=
  ⟨before, rest, rfl, h⟩

end Text

/-- What is said of an entry that is shown in full. -/
def NodeDescription.parts (n : NodeDescription Float) : List String :=
  [n.name, n.driver.name, toString n.parallelism, quantityText n.estimates.records,
    quantityText n.estimates.size, n.placement.text, n.arrangement.text]

namespace Line

/-- The text of a line says what the line stands for: all of an entry, the name of one that was
shown before, or how an input is shipped and sorted. -/
def Tells (l : Line Float) : Prop :=
  match l with
  | node _ n => Text.Says l.text n.parts
  | shared _ name => Text.Says l.text [name, "shared"]
  | input _ ship work => Text.Says l.text [ship.text, work.text]

open Text in
theorem tells (l : Line Float) : l.Tells := by
  have hnil : Says "" [] := trivial
  cases l with
  | node depth n =>
    have hsays : Says _ n.parts := ((((((hnil.cons "/" n.arrangement.text).cons " out="
      n.placement.text).cons " size=" (quantityText n.estimates.size)).cons " records="
        (quantityText n.estimates.records)).cons "] p=" (toString n.parallelism)).cons " ["
          n.driver.name).cons (padding depth) n.name
    simpa [Tells, text, String.append_assoc] using hsays
  | shared depth name =>
    exact ((show Says ", see above)" [] from trivial).cons " (" "shared").cons (padding depth) name
  | input depth ship work =>
    have hsays : Says _ [ship.text, work.text] :=
      (hnil.cons " local=" work.text).cons (padding depth ++ "  <- ship=") ship.text
    simpa [Tells, text, String.append_assoc] using hsays

end Line

/-- A text consists of the heading of a description, which says the total, and of the texts of its
lines, each of which says what the line stands for. -/
structure Description.Prints (d : Description Float) (text : String) : Prop where
  text_eq : text = String.join ((d.heading :: d.lines.map (·.text)).map (· ++ "\n"))
  heading : Text.Says d.heading [quantityText d.total]
  lines : ∀ l ∈ d.lines, l.Tells

theorem Description.prints_explain (d : Description Float) : d.Prints d.explain where
  text_eq := rfl
  heading := by
    refine ⟨"dagopt 0.1.0 plan, total cost: ", "", ?_, trivial⟩
    rw [String.append_empty]
    rfl
  lines l _ := l.tells

/-- The description of a chosen plan is a copy of it. Its text is a heading and then a line for each
reference: every entry is shown in full once, and by name wherever it is referred to besides. -/
theorem Outcome.description_copies_best {o : Optimizer Float} {job : Job} {clock : Nat → Nat}
    {out : Outcome Float} (hrun : o.run job clock = .ok out) :
    out.description.Copies out.problem.graph out.problem.analysis out.best ∧
      out.description.DrawnOnce ∧ out.description.Prints out.description.explain := by
  obtain ⟨hcopies, hdrawn⟩ := copies_and_drawnOnce hrun
  exact ⟨hcopies, hdrawn, out.description.prints_explain⟩

/-- Of the nine nodes of the job one is a joiner; its sources and its join are read more than
once. -/
theorem Outcome.description_copies_best_repeatedProducers : ∃ out,
    Optimizer.ofDefaults.run Graph.repeatedProducers = .ok out ∧
      out.description.nodes.length = 8 ∧ out.description.sinks.length = 2 ∧
        out.description.Copies out.problem.graph out.problem.analysis out.best ∧
          out.description.DrawnOnce ∧ out.description.Prints out.description.explain := by
  obtain ⟨p, hprepare, hcheck⟩ := exists_ok_of_any
    (r := Optimizer.ofDefaults.prepare Graph.repeatedProducers)
    (f := fun p => ((List.range p.graph.size).filter fun n =>
      !(p.graph.node n).kind.isJoiner).length == 8 && p.graph.sinks.length == 2)
    (by decide +kernel)
  simp only [Bool.and_eq_true, beq_iff_eq] at hcheck
  obtain ⟨out, hrun⟩ := Optimizer.exists_run hprepare rfl rfl fun _ => 0
  obtain ⟨hcopies, hdrawn, hprints⟩ := description_copies_best hrun
  rw [← (Optimizer.ranks_of_run_still hprepare hrun).1] at hcheck
  refine ⟨out, hrun, ?_, ?_, hcopies, hdrawn, hprints⟩
  · have hlength := hcopies.nodes.length_eq
    rw [hcheck.1, List.length_map] at hlength
    rw [hcopies.entries.length_eq, hlength]
  · rw [hcopies.sinks.length_eq, hcheck.2]

end FlowPlanner
