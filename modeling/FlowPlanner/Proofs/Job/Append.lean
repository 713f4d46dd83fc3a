/-
FlowPlanner.Proofs.Job.Append — one more sink at the end of a job.

A sink that is declared last, under an id of its own, and that reads an operator of the
job which is no sink, leaves the job accepted: the checks of the others pass as before,
and the sink is placed after them, because an operator declared before it is ready as
long as one is waiting (`Job.order_append`).
-/
import FlowPlanner.Job.Hint
import FlowPlanner.Proofs.Job.Order

namespace FlowPlanner

/-- The operator is a sink that reads one operator and carries no hints. Like every operator that is
accepted it does not ask for a parallelism of zero. -/
structure Operator.Taps (op : Operator) (input : OpId) : Prop where
  kind_eq : op.kind = .sink
  inputs_eq : op.inputs = [[input]]
  hints_eq : op.hints = Table.empty
  parallelism_ne : op.parallelism ≠ some 0

namespace Operator.Taps

variable {op : Operator} {input : OpId} (h : op.Taps input)

include h

theorem producers_eq : op.producers = [input] := by
  unfold producers
  rw [h.inputs_eq]
  rfl

theorem checkShape_ok : op.checkShape = .ok () := by
  unfold checkShape
  rw [h.inputs_eq, h.kind_eq]
  rfl

/-- A tap has no hints that could be misunderstood. -/
theorem exists_resolveHints : ∃ hints, op.resolveHints = .ok hints := by
  have hnone : ∀ key, op.hints.find? key = none := by
    intro key
    rw [h.hints_eq]
    rfl
  have hship : ∀ key, op.shipHint key = .ok none := by
    intro key
    unfold shipHint
    rw [hnone]
  have hpositive : ∀ key limit, op.positiveHint key limit = .ok none := by
    intro key limit
    unfold positiveHint
    rw [hnone]
  have hpins : op.pins none none none = .ok [.unset] := by
    unfold pins
    rw [h.kind_eq]
    rfl
  have hparallelism : op.chosenParallelism = .ok op.parallelism := by
    have hne : (op.parallelism == some 0) = false := by simpa using h.parallelism_ne
    unfold chosenParallelism
    rw [hpositive]
    simp only [bind, Except.bind, Option.none_or, hne, Bool.false_eq_true, if_false]
  have hdriver : op.driverHint = .ok none := by
    unfold driverHint
    rw [hnone]
  refine ⟨⟨op.parallelism, none, none, [.unset]⟩, ?_⟩
  unfold resolveHints
  rw [hship, hship, hship, h.kind_eq, hpositive, hdriver, hparallelism]
  simp only [bind, Except.bind, hpins, Kind.arity]
  rfl

end Operator.Taps

namespace Job

/-- The job with one more operator, declared last. -/
def append (job : Job) (op : Operator) : Job := ⟨job.operators ++ [op]⟩

variable {job : Job} {op : Operator}

/-! ## §1 The checks -/

theorem repeated?_append : ∀ {ops : List Operator} {seen : List OpId},
    repeated? seen ops = none → op.id ∉ seen → (∀ op' ∈ ops, op'.id ≠ op.id) →
      repeated? seen (ops ++ [op]) = none
  | [], seen, _, hseen, _ => by
    rw [List.nil_append, repeated?, if_neg hseen, repeated?]
  | op' :: ops, seen, h, hseen, hfresh => by
    rw [repeated?] at h
    rw [List.cons_append, repeated?]
    split at h
    · simp at h
    · rename_i hseen'
      rw [if_neg hseen']
      refine repeated?_append h ?_ fun op'' h' => hfresh op'' (List.mem_cons_of_mem op' h')
      rw [List.mem_cons]
      rintro (heq | hmem)
      · exact hfresh op' List.mem_cons_self heq.symm
      · exact hseen hmem

/-- Producers that were found are found again. -/
theorem checkOperator_append {op' : Operator} (h : job.checkOperator op' = .ok ()) :
    (job.append op).checkOperator op' = .ok () := by
  unfold checkOperator at h ⊢
  obtain ⟨⟨⟩, hshape, hproducers⟩ := exists_ok_of_bind h
  rw [hshape]
  refine forM_ok fun id hid => ?_
  have hid := ok_of_forM_ok hproducers id hid
  unfold checkProducer at hid ⊢
  split at hid
  · simp at hid
  · rename_i producer hfind
    unfold find? at hfind ⊢
    unfold append
    rw [List.find?_append, hfind]
    exact hid

theorem unconsumed?_append (h : job.unconsumed? = none) (hsink : op.kind.isSink = true) :
    (job.append op).unconsumed? = none := by
  unfold unconsumed? at h ⊢
  rw [List.find?_eq_none] at h ⊢
  unfold isConsumed at h ⊢
  unfold append
  intro op' hop'
  rcases List.mem_append.1 hop' with hop' | hop'
  · have hread := h op' hop'
    simp only [Bool.and_eq_true, Bool.not_eq_true', not_and, Bool.not_eq_false] at hread ⊢
    intro hkind
    rw [List.any_append, hread hkind, Bool.true_or]
  · obtain rfl := List.mem_singleton.1 hop'
    simp [hsink]

/-! ## §2 The order -/

/-- An operator that waits behind all others and reads only these is placed last. -/
theorem orderWithin_append (last : Nat × Operator) : ∀ {rounds : Nat} {placed : List OpId}
    {waiting : List (Nat × Operator)} {positions : List Nat},
      (waiting.map (·.1)).Nodup → last.1 ∉ waiting.map (·.1) →
        (∀ id ∈ last.2.producers, id ∈ placed ∨ ∃ w ∈ waiting, w.2.id = id) →
          orderWithin rounds placed waiting = some positions →
            orderWithin (rounds + 1) placed (waiting ++ [last]) = some (positions ++ [last.1])
  | rounds, placed, [], positions, _, _, hproducers, h => by
    have hready : isReady placed last.2 = true := by
      unfold isReady
      rw [List.all_eq_true]
      intro id hid
      simpa using hproducers id hid
    have hempty : ∀ rounds placed, orderWithin rounds placed [] = some [] := by
      intro rounds placed
      cases rounds <;> rfl
    rw [hempty] at h
    obtain rfl := Option.some.inj h
    rw [List.nil_append, orderWithin]
    simp [hready, hempty]
  | 0, placed, w :: waiting, positions, _, _, _, h => by simp [orderWithin] at h
  | rounds + 1, placed, w :: waiting, positions, hnodup, hlast, hproducers, h => by
    generalize hws : w :: waiting = ws at *
    rw [orderWithin] at h
    rw [orderWithin, List.find?_append]
    cases hfind : ws.find? fun w => isReady placed w.2 with
    | none =>
      rw [hfind] at h
      simp [← hws] at h
    | some next =>
      rw [hfind] at h
      obtain ⟨rest, hrest, rfl⟩ := Option.map_eq_some_iff.1 h
      have hperm := perm_cons_filter hnodup (List.mem_of_find?_eq_some hfind)
      have hkeep : [last].filter (·.1 != next.1) = [last] := by
        have hne : last.1 ≠ next.1 := by
          intro heq
          exact hlast (heq ▸ List.mem_map_of_mem (List.mem_of_find?_eq_some hfind))
        simp [hne]
      have ih := orderWithin_append last
        (hnodup.sublist (List.filter_sublist.map _))
        (fun hmem => hlast ((List.filter_sublist.map _).subset hmem)) (by
          intro id hid
          rcases hproducers id hid with hid | ⟨v, hv, hid⟩
          · exact .inl (List.mem_cons_of_mem _ hid)
          · rcases List.mem_cons.1 (hperm.mem_iff.2 hv) with rfl | hv
            · exact .inl (hid ▸ List.mem_cons_self)
            · exact .inr ⟨v, hv, hid⟩) hrest
      rw [Option.some_or]
      dsimp only
      rw [List.filter_append, hkeep, ih]
      rfl

theorem indexed_append (job : Job) (op : Operator) :
    (job.append op).indexed = job.indexed ++ [(job.size, op)] := by
  have hsize : (job.append op).size = job.size + 1 := by simp [append, size]
  unfold indexed
  rw [hsize, List.range_succ]
  exact List.zip_append (List.length_range)

/-- A sink that reads an operator which is no sink may be declared at the end of an accepted job,
and is laid out last. -/
theorem order_append {positions : List Nat} (h : job.order = .ok positions)
    (hfresh : ∀ op' ∈ job.operators, op'.id ≠ op.id) {producer : Operator}
    (hproducer : producer ∈ job.operators) (hkind : producer.kind.isSink = false)
    (htaps : op.Taps producer.id) :
    (job.append op).order = .ok (positions ++ [job.size]) := by
  obtain ⟨hrepeated, hcheck, hconsumed, -, hfound⟩ := order_ok_iff.1 h
  have hsink : op.kind.isSink = true := by
    rw [htaps.kind_eq]
    rfl
  have hfind : (job.append op).find? producer.id = some producer := by
    have hfind : job.find? producer.id = some producer :=
      find?_of_mem (nodup_of_repeated? hrepeated).1 hproducer
    unfold find? at hfind ⊢
    unfold append
    rw [List.find?_append, hfind]
    rfl
  refine order_ok_iff.2 ⟨repeated?_append hrepeated (by simp) hfresh, forM_ok ?_,
    unconsumed?_append hconsumed hsink, List.any_eq_true.2 ⟨op, by simp [append], hsink⟩, ?_⟩
  · intro op' hop'
    rcases List.mem_append.1 hop' with hop' | hop'
    · exact checkOperator_append (ok_of_forM_ok hcheck op' hop')
    · obtain rfl := List.mem_singleton.1 hop'
      unfold checkOperator
      rw [htaps.checkShape_ok, htaps.producers_eq]
      refine forM_ok fun id hid => ?_
      obtain rfl := List.mem_singleton.1 hid
      unfold checkProducer
      rw [hfind]
      simp [hkind]
  · have hsize : (job.append op).size = job.size + 1 := by simp [append, size]
    rw [indexed_append, hsize]
    refine orderWithin_append (job.size, op) job.nodup_map_fst_indexed ?_ ?_ hfound
    · rw [map_fst_indexed]
      simp
    · intro id hid
      rw [htaps.producers_eq, List.mem_singleton] at hid
      rw [← job.map_snd_indexed] at hproducer
      obtain ⟨w, hw, rfl⟩ := List.mem_map.1 hproducer
      exact .inr ⟨w, hw, hid.symm⟩

/-- The operators are laid out as before, and the appended one after them. -/
theorem filterMap_append {positions : List Nat} (h : job.order = .ok positions) (op : Operator) :
    (positions ++ [job.size]).filterMap (fun i => (job.append op).operators[i]?) =
      (positions.filterMap fun i => job.operators[i]?) ++ [op] := by
  have hold : ∀ i ∈ positions, (job.append op).operators[i]? = job.operators[i]? := by
    intro i hi
    exact List.getElem?_append_left (lt_size_of_mem_order h hi)
  rw [List.filterMap_append, List.filterMap_congr hold]
  simp [append, size]

end Job

end FlowPlanner
