/-
FlowPlanner.Proofs.Job.Acceptance — which jobs are accepted, and in which order.

The checks of a job say together that its ids differ, that every operator has the shape its
kind wants, that every producer is there and is no sink, and that everything ends in a sink
(`Job.Accepted`). The order is found exactly if no operator reads from itself through
others: where nothing does, some waiting operator has no waiting producer, so no round
comes to a stop (`exists_orderWithin`), and an order that is found ranks every producer
below what reads it. In every round the first operator is taken that could come next, so
what is found is the least order there is (`lex_of_orderWithin`).
-/
import FlowPlanner.Proofs.Job.Order
import Mathlib.Order.WellFoundedSet

namespace FlowPlanner

/-! ## §1 The checks -/

namespace Operator

/-- Input positions, producers and key columns are as the kind wants them. -/
structure WellShaped (op : Operator) : Prop where
  arity : op.inputs.length = op.kind.arity
  fed : ∀ producers ∈ op.inputs, producers ≠ []
  keyed : op.kind.requiresKeys = true → ∀ i < op.kind.arity, op.keysOf i ≠ []
  widths : op.kind.arity = 2 → (op.keysOf 0).length = (op.keysOf 1).length

theorem checkShape_ok_iff {op : Operator} : op.checkShape = .ok () ↔ op.WellShaped := by
  have hfed : op.inputs.findIdx? (·.isEmpty) = none ↔ ∀ producers ∈ op.inputs, producers ≠ [] := by
    simp [List.findIdx?_eq_none_iff]
  have hkeyed : (op.kind.requiresKeys &&
      (List.range op.kind.arity).any fun i => (op.keysOf i).isEmpty) = false ↔
        (op.kind.requiresKeys = true → ∀ i < op.kind.arity, op.keysOf i ≠ []) := by
    cases op.kind.requiresKeys <;> simp
  have hwidths : (op.kind.arity == 2 && (op.keysOf 0).length != (op.keysOf 1).length) = false ↔
      (op.kind.arity = 2 → (op.keysOf 0).length = (op.keysOf 1).length) := by
    simp
  unfold checkShape
  constructor
  · intro h
    split at h
    · simp at h
    · rename_i harity
      split at h
      · simp at h
      · rename_i hsome
        split at h
        · simp at h
        · rename_i hkeys
          split at h
          · simp at h
          · rename_i hwidth
            exact ⟨by simpa using harity, hfed.1 hsome, hkeyed.1 (by simpa using hkeys),
              hwidths.1 (by simpa using hwidth)⟩
  · intro h
    rw [if_neg (by simp [h.arity]), hfed.2 h.fed]
    dsimp only
    rw [hkeyed.2 h.keyed, hwidths.2 h.widths]
    rfl

end Operator

namespace Job

/-- An operator reads from another. -/
def Feeds (job : Job) (producer reader : OpId) : Prop :=
  ∃ op ∈ job.operators, op.id = reader ∧ producer ∈ op.producers

/-- What is checked of the operators before they are ordered. -/
structure Checked (job : Job) : Prop where
  ids_nodup : (job.operators.map (·.id)).Nodup
  shaped : ∀ op ∈ job.operators, op.WellShaped
  exists_producer : ∀ op ∈ job.operators, ∀ id ∈ op.producers,
    ∃ producer ∈ job.operators, producer.id = id ∧ producer.kind.isSink = false
  consumed : ∀ op ∈ job.operators, op.kind.isSink = false → ∃ reader, job.Feeds op.id reader
  has_sink : ∃ op ∈ job.operators, op.kind.isSink = true

/-- What a job must be to be laid out. -/
structure Accepted (job : Job) : Prop extends Checked job where
  acyclic : ∀ id, ¬ Relation.TransGen job.Feeds id id

theorem repeated?_of_nodup : ∀ {ops : List Operator} {seen : List OpId},
    (ops.map (·.id)).Nodup → (∀ op ∈ ops, op.id ∉ seen) → repeated? seen ops = none
  | [], _, _, _ => rfl
  | op :: ops, seen, hnodup, hfresh => by
    rw [List.map_cons, List.nodup_cons] at hnodup
    unfold repeated?
    rw [if_neg (hfresh op List.mem_cons_self)]
    refine repeated?_of_nodup hnodup.2 fun op' hop' hmem => ?_
    rcases List.mem_cons.1 hmem with heq | hmem
    · exact hnodup.1 (heq ▸ List.mem_map_of_mem hop')
    · exact hfresh op' (List.mem_cons_of_mem op hop') hmem

theorem checkProducer_ok_iff {job : Job} (hnodup : (job.operators.map (·.id)).Nodup)
    {op : Operator} {id : OpId} : job.checkProducer op id = .ok () ↔
      ∃ producer ∈ job.operators, producer.id = id ∧ producer.kind.isSink = false := by
  unfold checkProducer
  constructor
  · intro h
    split at h
    · simp at h
    · rename_i producer hfind
      split at h
      · simp at h
      · rename_i hsink
        exact ⟨producer, List.mem_of_find?_eq_some hfind, by simpa using List.find?_some hfind,
          by simpa using hsink⟩
  · rintro ⟨producer, hproducer, rfl, hsink⟩
    rw [find?_of_mem hnodup hproducer]
    dsimp only
    rw [hsink]
    rfl

theorem checkOperator_ok_iff {job : Job} (hnodup : (job.operators.map (·.id)).Nodup)
    {op : Operator} : job.checkOperator op = .ok () ↔ op.WellShaped ∧ ∀ id ∈ op.producers,
      ∃ producer ∈ job.operators, producer.id = id ∧ producer.kind.isSink = false := by
  constructor
  · intro h
    obtain ⟨⟨⟩, hshape, hproducers⟩ := exists_ok_of_bind h
    exact ⟨Operator.checkShape_ok_iff.1 hshape, fun id hid =>
      (checkProducer_ok_iff hnodup).1 (ok_of_forM_ok hproducers id hid)⟩
  · rintro ⟨hshape, hproducers⟩
    unfold checkOperator
    rw [Operator.checkShape_ok_iff.2 hshape]
    exact forM_ok fun id hid => (checkProducer_ok_iff hnodup).2 (hproducers id hid)

theorem unconsumed?_eq_none_iff {job : Job} : job.unconsumed? = none ↔
    ∀ op ∈ job.operators, op.kind.isSink = false → ∃ reader, job.Feeds op.id reader := by
  unfold unconsumed? isConsumed Feeds
  rw [List.find?_eq_none]
  refine forall₂_congr fun op _ => ?_
  cases op.kind.isSink with
  | true => simp
  | false =>
    simp only [Bool.not_false, Bool.true_and, Bool.not_eq_true', Bool.not_eq_false,
      List.any_eq_true, decide_eq_true_eq, true_implies]
    constructor
    · rintro ⟨reader, hreader, hmem⟩
      exact ⟨reader.id, reader, hreader, rfl, hmem⟩
    · rintro ⟨_, reader, hreader, -, hmem⟩
      exact ⟨reader, hreader, hmem⟩

/-- A job is laid out if it passes its checks and an order is found. -/
theorem order_ok_iff_checked {job : Job} {positions : List Nat} : job.order = .ok positions ↔
    job.Checked ∧ orderWithin job.size [] job.indexed = some positions := by
  rw [order_ok_iff, unconsumed?_eq_none_iff, List.any_eq_true]
  constructor
  · rintro ⟨hrepeated, hcheck, hconsumed, hsink, hfound⟩
    have hnodup := (nodup_of_repeated? hrepeated).1
    have hone := fun op hop => (checkOperator_ok_iff hnodup).1 (ok_of_forM_ok hcheck op hop)
    exact ⟨⟨hnodup, fun op hop => (hone op hop).1, fun op hop => (hone op hop).2, hconsumed,
      hsink⟩, hfound⟩
  · rintro ⟨h, hfound⟩
    refine ⟨repeated?_of_nodup h.ids_nodup (by simp), forM_ok fun op hop => ?_, h.consumed,
      h.has_sink, hfound⟩
    exact (checkOperator_ok_iff h.ids_nodup).2 ⟨h.shaped op hop, h.exists_producer op hop⟩

/-! ## §2 Orders of the operators -/

/-- All positions of a job, those of producers before those of their readers. -/
structure Schedule (job : Job) (positions : List Nat) : Prop where
  perm : positions.Perm (List.range job.size)
  producer_lt : ∀ i j producer reader, job.operators[i]? = some producer →
    job.operators[j]? = some reader → producer.id ∈ reader.producers →
      positions.idxOf i < positions.idxOf j

/-- Every operator stands after its producers exactly if each of them stands before it at every
place of the list. -/
theorem producersFirst_iff : ∀ {ops : List Operator} {placed : List OpId},
    ProducersFirst placed ops ↔ ∀ before op after, ops = before ++ op :: after →
      ∀ id ∈ op.producers, id ∈ before.map (·.id) ∨ id ∈ placed
  | [], _ => by simp [ProducersFirst]
  | op :: ops, placed => by
    unfold ProducersFirst
    rw [producersFirst_iff]
    constructor
    · rintro ⟨hop, hops⟩ before op' after hsplit id hid
      cases before with
      | nil =>
        obtain ⟨rfl, rfl⟩ := List.cons.inj hsplit
        exact .inr (hop id hid)
      | cons first before =>
        obtain ⟨rfl, rfl⟩ := List.cons.inj hsplit
        have := hops before op' after rfl id hid
        simp only [List.mem_cons, List.map_cons] at this ⊢
        tauto
    · intro h
      refine ⟨fun id hid => by simpa using h [] op ops rfl id hid, ?_⟩
      intro before op' after hsplit id hid
      have := h (op :: before) op' after (by rw [hsplit]; rfl) id hid
      simp only [List.mem_cons, List.map_cons] at this ⊢
      tauto

/-- Of different entries, those before an entry are those with smaller indices. -/
theorem idxOf_lt_idxOf_iff {before after : List Nat} {i j : Nat}
    (hnodup : (before ++ j :: after).Nodup) :
    (before ++ j :: after).idxOf i < (before ++ j :: after).idxOf j ↔ i ∈ before := by
  have hj : j ∉ before := fun hj =>
    (List.nodup_append.1 hnodup).2.2 j hj j List.mem_cons_self rfl
  rw [List.idxOf_append_of_notMem hj, List.idxOf_cons_self, Nat.add_zero]
  by_cases hi : i ∈ before
  · rw [List.idxOf_append_of_mem hi]
    exact ⟨fun _ => hi, fun _ => List.idxOf_lt_length_of_mem hi⟩
  · rw [List.idxOf_append_of_notMem hi]
    exact ⟨fun h => absurd h (Nat.not_lt_of_le (Nat.le_add_right _ _)), fun h => absurd h hi⟩

/-- In a job whose ids differ, an id stands at one position. -/
theorem eq_of_id_eq {job : Job} (hnodup : (job.operators.map (·.id)).Nodup) {i j : Nat}
    {op op' : Operator} (hi : job.operators[i]? = some op) (hj : job.operators[j]? = some op')
    (hid : op.id = op'.id) : i = j :=
  Option.some.inj (((position?_eq hnodup hi op.id).2 rfl).symm.trans
    ((position?_eq hnodup hj op.id).2 hid))

theorem nodup_of_listing {job : Job} {before after : List (Nat × Operator)} {w : Nat × Operator}
    (hperm : (before ++ w :: after).Perm job.indexed) :
    (before.map (·.1) ++ w.1 :: after.map (·.1)).Nodup := by
  rw [← List.map_cons, ← List.map_append, (hperm.map _).nodup_iff]
  exact job.nodup_map_fst_indexed

/-- A schedule lists the positions of the operators in an order that has producers first. -/
theorem Schedule.exists_listing {job : Job} (h : job.Checked) {positions : List Nat}
    (hschedule : job.Schedule positions) : ∃ ws : List (Nat × Operator), ws.Perm job.indexed ∧
      positions = ws.map (·.1) ∧ ProducersFirst [] (ws.map (·.2)) := by
  have hperm := hschedule.perm
  rw [← map_fst_indexed] at hperm
  obtain ⟨ws, hfst, hws⟩ := List.perm_comp_forall₂ (r := fun i w => i = w.1) hperm
    (List.forall₂_map_left_iff.2 (List.forall₂_same.2 fun _ _ => rfl))
  obtain rfl : positions = ws.map (·.1) := by
    rw [← List.forall₂_eq_eq_eq, List.forall₂_map_right_iff]
    exact hfst
  refine ⟨ws, hws, rfl, producersFirst_iff.2 ?_⟩
  intro before op after hsplit id hid
  obtain ⟨before, rest, rfl, rfl, hrest⟩ := List.map_eq_append_iff.1 hsplit
  obtain ⟨w, after, rfl, rfl, rfl⟩ := List.map_eq_cons_iff.1 hrest
  have hw := mem_indexed_iff.1 (hws.mem_iff.1 (List.mem_append_right _ List.mem_cons_self))
  obtain ⟨producer, hproducer, rfl, -⟩ :=
    h.exists_producer w.2 (List.mem_of_getElem? hw) id hid
  obtain ⟨i, hi⟩ := List.mem_iff_getElem?.1 hproducer
  have hlt := hschedule.producer_lt i w.1 producer w.2 hi hw hid
  rw [List.map_append, List.map_cons, idxOf_lt_idxOf_iff (nodup_of_listing hws)] at hlt
  obtain ⟨v, hv, rfl⟩ := List.mem_map.1 hlt
  have hvop := mem_indexed_iff.1 (hws.mem_iff.1 (List.mem_append_left _ hv))
  rw [hi] at hvop
  obtain rfl := Option.some.inj hvop
  exact .inl (List.mem_map_of_mem (List.mem_map_of_mem hv))

/-- An order of the operators that has producers first makes a schedule. -/
theorem schedule_of_listing {job : Job} (h : job.Checked) {ws : List (Nat × Operator)}
    (hws : ws.Perm job.indexed) (hfirst : ProducersFirst [] (ws.map (·.2))) :
    job.Schedule (ws.map (·.1)) := by
  refine ⟨job.map_fst_indexed ▸ hws.map _, ?_⟩
  intro i j producer reader hi hj hid
  obtain ⟨before, after, rfl⟩ := List.append_of_mem (hws.mem_iff.2
    (mem_indexed_iff.2 (show job.operators[(j, reader).1]? = _ from hj)))
  rw [List.map_append, List.map_cons] at hfirst ⊢
  rw [idxOf_lt_idxOf_iff (nodup_of_listing hws)]
  rcases producersFirst_iff.1 hfirst _ _ _ rfl producer.id hid with hmem | hmem
  · obtain ⟨_, hop, hopid⟩ := List.mem_map.1 hmem
    obtain ⟨v, hv, rfl⟩ := List.mem_map.1 hop
    have hvop := mem_indexed_iff.1 (hws.mem_iff.1 (List.mem_append_left _ hv))
    rw [← eq_of_id_eq h.ids_nodup hvop hi hopid]
    exact List.mem_map_of_mem hv
  · simp at hmem

/-! ## §3 No cycle -/

/-- What reads from an operator, directly or through others, stands after it. -/
theorem idxOf_lt_of_feeds {job : Job} (hnodup : (job.operators.map (·.id)).Nodup)
    {ops : List Operator} (hops : ops.Perm job.operators) (hfirst : ProducersFirst [] ops)
    {producer reader : OpId} (h : Relation.TransGen job.Feeds producer reader) :
    (ops.map (·.id)).idxOf producer < (ops.map (·.id)).idxOf reader := by
  have hone : ∀ {producer reader : OpId}, job.Feeds producer reader →
      (ops.map (·.id)).idxOf producer < (ops.map (·.id)).idxOf reader := by
    rintro producer _ ⟨op, hop, rfl, hid⟩
    obtain ⟨before, after, hsplit⟩ := List.append_of_mem (hops.mem_iff.2 hop)
    have hids : ops.map (·.id) = before.map (·.id) ++ op.id :: after.map (·.id) := by
      rw [hsplit, List.map_append, List.map_cons]
    have hbefore := producersFirst_iff.1 hfirst before op after hsplit producer hid
    rw [hids]
    refine (idxOf_lt_idxOf_iff ?_).2 (by simpa using hbefore)
    rw [← hids, (hops.map _).nodup_iff]
    exact hnodup
  induction h with
  | single h => exact hone h
  | tail _ h ih => exact Nat.lt_trans ih (hone h)

/-- Where no operator reads from itself through others, some operator of those that wait has no
producer among them. -/
theorem exists_isReady {job : Job} (h : ∀ id, ¬ Relation.TransGen job.Feeds id id)
    {placed : List OpId} {waiting : List (Nat × Operator)} (hne : waiting ≠ [])
    (hsub : ∀ w ∈ waiting, w.2 ∈ job.operators)
    (hids : ∀ w ∈ waiting, ∀ id ∈ w.2.producers, id ∈ placed ∨ ∃ v ∈ waiting, v.2.id = id) :
    ∃ w ∈ waiting, isReady placed w.2 = true := by
  let ids : Set OpId := (waiting.map (·.2.id)).toFinset
  have hstrict : IsStrictOrder OpId (Relation.TransGen job.Feeds) :=
    { irrefl := h, trans := fun _ _ _ => Relation.TransGen.trans }
  obtain ⟨v, hv⟩ := List.exists_mem_of_ne_nil waiting hne
  have hmem : ∀ {w}, w ∈ waiting → w.2.id ∈ ids := fun hw => by
    simpa [ids] using ⟨_, _, hw, rfl⟩
  obtain ⟨⟨id, hid⟩, -, hmin⟩ := ((Finset.finite_toSet _).wellFoundedOn
    (r := Relation.TransGen job.Feeds)).has_min (Set.univ : Set ids) ⟨⟨v.2.id, hmem hv⟩, trivial⟩
  obtain ⟨w, hw, rfl⟩ : ∃ w ∈ waiting, w.2.id = id := by simpa [ids] using hid
  refine ⟨w, hw, ?_⟩
  unfold isReady
  rw [List.all_eq_true]
  intro id hid
  rw [decide_eq_true_eq]
  rcases hids w hw id hid with hplaced | ⟨u, hu, rfl⟩
  · exact hplaced
  · exact absurd (.single ⟨w.2, hsub w hw, rfl, hid⟩) (hmin ⟨u.2.id, hmem hu⟩ trivial)

/-- Where no operator reads from itself through others, all operators come to be placed. -/
theorem exists_orderWithin {job : Job} (h : ∀ id, ¬ Relation.TransGen job.Feeds id id) :
    ∀ {rounds : Nat} {placed : List OpId} {waiting : List (Nat × Operator)},
      waiting.length ≤ rounds → (waiting.map (·.1)).Nodup →
      (∀ w ∈ waiting, w.2 ∈ job.operators) →
      (∀ w ∈ waiting, ∀ id ∈ w.2.producers, id ∈ placed ∨ ∃ v ∈ waiting, v.2.id = id) →
        ∃ positions, orderWithin rounds placed waiting = some positions
  | 0, placed, waiting, hlen, _, _, _ => by
    obtain rfl : waiting = [] := List.eq_nil_of_length_eq_zero (Nat.le_zero.1 hlen)
    exact ⟨[], rfl⟩
  | rounds + 1, placed, [], _, _, _, _ => ⟨[], rfl⟩
  | rounds + 1, placed, w :: ws, hlen, hnodup, hsub, hids => by
    obtain ⟨v, hv, hready⟩ := exists_isReady h (List.cons_ne_nil w ws) hsub hids
    unfold orderWithin
    cases hnext : (w :: ws).find? (fun w => isReady placed w.2) with
    | none => exact absurd hready (List.find?_eq_none.1 hnext v hv)
    | some next =>
      have hperm := perm_cons_filter hnodup (List.mem_of_find?_eq_some hnext)
      have hlength := hperm.length_eq
      have hstays : ∀ {u}, u ∈ (w :: ws).filter (·.1 != next.1) → u ∈ w :: ws :=
        List.mem_of_mem_filter
      obtain ⟨positions, hpositions⟩ : ∃ positions, orderWithin rounds (next.2.id :: placed)
          ((w :: ws).filter (·.1 != next.1)) = some positions := by
        refine exists_orderWithin h ?_ (hnodup.sublist (List.filter_sublist.map _))
          (fun u hu => hsub u (hstays hu)) ?_
        · rw [List.length_cons] at hlength
          omega
        · intro u hu id hid
          rcases hids u (hstays hu) id hid with hplaced | ⟨x, hx, rfl⟩
          · exact .inl (List.mem_cons_of_mem _ hplaced)
          · rcases List.mem_cons.1 (hperm.mem_iff.2 hx) with rfl | hx
            · exact .inl List.mem_cons_self
            · exact .inr ⟨x, hx, rfl⟩
      exact ⟨next.1 :: positions, by dsimp only; rw [hpositions]; rfl⟩

/-! ## §4 The least order -/

/-- What is placed round by round comes first among the orders of what waits that have producers
first. -/
theorem lex_of_orderWithin : ∀ {rounds : Nat} {placed : List OpId}
    {waiting : List (Nat × Operator)} {positions : List Nat},
      waiting.Pairwise (fun v w => v.1 < w.1) →
      orderWithin rounds placed waiting = some positions →
      ∀ {ws : List (Nat × Operator)}, ws.Perm waiting → ProducersFirst placed (ws.map (·.2)) →
        ws.map (·.1) ≠ positions → List.Lex (· < ·) positions (ws.map (·.1))
  | 0, placed, waiting, positions, _, h, ws, hperm, _, hne => by
    unfold orderWithin at h
    split at h
    · obtain rfl := Option.some.inj h
      exact (List.lex_nil_or_eq_nil _).resolve_right hne
    · simp at h
  | rounds + 1, placed, waiting, positions, hascending, h, ws, hperm, hfirst, hne => by
    unfold orderWithin at h
    split at h
    · rename_i next hnext
      obtain ⟨rest, hrest, rfl⟩ := Option.map_eq_some_iff.1 h
      have hmem := List.mem_of_find?_eq_some hnext
      have hnodup : (waiting.map (·.1)).Nodup :=
        (List.pairwise_map.2 hascending).imp Nat.ne_of_lt
      cases ws with
      | nil => exact absurd (hperm.mem_iff.2 hmem) List.not_mem_nil
      | cons w ws =>
        obtain ⟨hready, hwsfirst⟩ := hfirst
        have hw : w ∈ waiting := hperm.mem_iff.1 List.mem_cons_self
        -- What stands before `next` is not ready, so `w` stands at its place or behind it.
        have hnext_or : w = next ∨ next.1 < w.1 := by
          obtain ⟨-, before, after, rfl, hbefore⟩ := List.find?_eq_some_iff_append.1 hnext
          rcases List.mem_append.1 hw with hw | hw
          · have hnot := hbefore w hw
            rw [show isReady placed w.2 = true by simpa [isReady] using hready] at hnot
            simp at hnot
          · exact (List.mem_cons.1 hw).imp_right fun hw =>
              (List.pairwise_cons.1 (List.pairwise_append.1 hascending).2.1).1 w hw
        rcases hnext_or with rfl | hlt
        · refine .cons (lex_of_orderWithin (hascending.filter _) hrest ?_ hwsfirst ?_)
          · exact (hperm.trans (perm_cons_filter hnodup hmem).symm).cons_inv
          · exact fun heq => hne (by rw [List.map_cons, heq])
        · exact .rel hlt
    · split at h
      · obtain rfl := Option.some.inj h
        exact (List.lex_nil_or_eq_nil _).resolve_right hne
      · simp at h

theorem pairwise_indexed (job : Job) : job.indexed.Pairwise fun v w => v.1 < w.1 := by
  rw [← List.pairwise_map, map_fst_indexed]
  exact List.pairwise_lt_range

/-- A checked job in which no operator reads from itself through others has an order. -/
theorem Checked.exists_orderWithin {job : Job} (h : job.Checked)
    (hacyclic : ∀ id, ¬ Relation.TransGen job.Feeds id id) :
    ∃ positions, orderWithin job.size [] job.indexed = some positions := by
  have hops : ∀ {w}, w ∈ job.indexed → w.2 ∈ job.operators := fun hw =>
    List.mem_of_getElem? (mem_indexed_iff.1 hw)
  refine Job.exists_orderWithin hacyclic (Nat.le_of_eq (by simp [indexed, size]))
    job.nodup_map_fst_indexed (fun _ hw => hops hw) ?_
  intro w hw id hid
  obtain ⟨producer, hproducer, rfl, -⟩ := h.exists_producer w.2 (hops hw) id hid
  rw [← job.map_snd_indexed] at hproducer
  obtain ⟨v, hv, rfl⟩ := List.mem_map.1 hproducer
  exact .inr ⟨v, hv, rfl⟩

/-- A checked job has an order exactly if no operator reads from itself through others, and what is
found is the least schedule. -/
theorem Checked.orderWithin_eq_some_iff {job : Job} (h : job.Checked) {positions : List Nat} :
    orderWithin job.size [] job.indexed = some positions ↔
      (∀ id, ¬ Relation.TransGen job.Feeds id id) ∧ job.Schedule positions ∧
        ∀ other, job.Schedule other → other ≠ positions → List.Lex (· < ·) positions other := by
  have hsound : ∀ {positions}, orderWithin job.size [] job.indexed = some positions →
      (∀ id, ¬ Relation.TransGen job.Feeds id id) ∧ job.Schedule positions ∧
        ∀ other, job.Schedule other → other ≠ positions → List.Lex (· < ·) positions other := by
    intro positions hfound
    obtain ⟨ws, hperm, rfl, hfirst⟩ := orderWithin_spec job.nodup_map_fst_indexed hfound
    have hops : (ws.map (·.2)).Perm job.operators := job.map_snd_indexed ▸ hperm.map _
    refine ⟨fun id hid => ?_, schedule_of_listing h hperm hfirst, ?_⟩
    · exact Nat.lt_irrefl _ (idxOf_lt_of_feeds h.ids_nodup hops hfirst hid)
    · intro other hother hne
      obtain ⟨vs, hvs, rfl, hvsfirst⟩ := hother.exists_listing h
      exact lex_of_orderWithin job.pairwise_indexed hfound hvs hvsfirst hne
  refine ⟨hsound, ?_⟩
  rintro ⟨hacyclic, hschedule, hleast⟩
  obtain ⟨found, hfound⟩ := h.exists_orderWithin hacyclic
  obtain ⟨-, hfoundSchedule, hfoundLeast⟩ := hsound hfound
  rw [hfound]
  by_contra hne
  have hdiffer : positions ≠ found := fun heq => hne (by rw [heq])
  exact Std.Asymm.asymm (r := List.Lex (· < ·)) _ _ (hleast found hfoundSchedule hdiffer.symm)
    (hfoundLeast positions hschedule hdiffer)

/-- A job is laid out exactly if it is accepted, and then in the least of its schedules. For no job
is a count lowered from zero. -/
theorem order_iff_accepted (job : Job) :
    ((∃ positions, job.order = .ok positions) ↔ job.Accepted) ∧
    (∀ positions, job.order = .ok positions ↔ job.Accepted ∧ job.Schedule positions ∧
      ∀ other, job.Schedule other → other ≠ positions → List.Lex (· < ·) positions other) ∧
    ∃ placed, job.countdown = some placed := by
  have hiff : ∀ positions, job.order = .ok positions ↔ job.Accepted ∧ job.Schedule positions ∧
      ∀ other, job.Schedule other → other ≠ positions → List.Lex (· < ·) positions other := by
    intro positions
    rw [order_ok_iff_checked]
    constructor
    · rintro ⟨hchecked, hfound⟩
      obtain ⟨hacyclic, hschedule⟩ := hchecked.orderWithin_eq_some_iff.1 hfound
      exact ⟨⟨hchecked, hacyclic⟩, hschedule⟩
    · rintro ⟨⟨hchecked, hacyclic⟩, hschedule⟩
      exact ⟨hchecked, hchecked.orderWithin_eq_some_iff.2 ⟨hacyclic, hschedule⟩⟩
  refine ⟨⟨fun ⟨positions, h⟩ => ((hiff positions).1 h).1, fun h => ?_⟩, hiff,
    job.exists_countdown⟩
  obtain ⟨positions, hfound⟩ := h.toChecked.exists_orderWithin h.acyclic
  exact ⟨positions, order_ok_iff_checked.2 ⟨h.toChecked, hfound⟩⟩

/-- A sink before the join it reads, which reads one source twice and a source declared last. -/
def declaredBackwards : Job where
  operators :=
    [{ id := 5, name := "out", kind := .sink, inputs := [[4]] },
     { id := 4, name := "pairs", kind := .equiJoin, inputs := [[1, 2], [2, 2]]
       keys := [[0], [0]] },
     { id := 2, name := "right", kind := .source {} },
     { id := 1, name := "left", kind := .source {} }]

example : declaredBackwards.order = .ok [2, 3, 1, 0] := rfl

end Job

end FlowPlanner
