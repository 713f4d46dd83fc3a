/-
FlowPlanner.Proofs.Job.Order — what the order of a job promises.

A job that passes its check is listed completely, and every operator stands
after the producers it reads (`Job.Listing`).
-/
import FlowPlanner.Proofs.Job.Countdown

namespace FlowPlanner

/-! ## §1 Steps that can fail -/

/-- Two steps succeed only if each does. -/
theorem exists_ok_of_bind {β γ ε : Type} {x : Except ε β} {f : β → Except ε γ} {c : γ}
    (h : x >>= f = .ok c) : ∃ b, x = .ok b ∧ f b = .ok c := by
  cases x with
  | error e => simp [bind, Except.bind] at h
  | ok b => exact ⟨b, rfl, h⟩

theorem exists_ok_of_isOk {ε β : Type} {r : Except ε β} (h : r.isOk = true) :
    ∃ b, r = .ok b := by
  cases r with
  | error e => simp [Except.isOk, Except.toBool] at h
  | ok b => exact ⟨b, rfl⟩

theorem exists_ok_of_any {ε β : Type} {r : Except ε β} {f : β → Bool}
    (h : r.toOption.any f = true) : ∃ b, r = .ok b ∧ f b = true := by
  cases r with
  | error e => simp [Except.toOption] at h
  | ok b => exact ⟨b, rfl, by simpa [Except.toOption] using h⟩

/-- A check of every member passes only if it passes each of them. -/
theorem ok_of_forM_ok {β ε : Type} {f : β → Except ε Unit} : ∀ {xs : List β},
    xs.forM f = .ok () → ∀ x ∈ xs, f x = .ok ()
  | x :: xs, h, y, hy => by
    rw [List.forM_eq_forM, List.forM_cons] at h
    obtain ⟨⟨⟩, hx, hxs⟩ := exists_ok_of_bind h
    rcases List.mem_cons.1 hy with rfl | hy
    · exact hx
    · exact ok_of_forM_ok hxs y hy

/-- A check of every member passes if it passes each of them. -/
theorem forM_ok {β ε : Type} {f : β → Except ε Unit} : ∀ {xs : List β},
    (∀ x ∈ xs, f x = .ok ()) → xs.forM f = .ok ()
  | [], _ => rfl
  | x :: xs, h => by
    rw [List.forM_eq_forM, List.forM_cons, h x List.mem_cons_self]
    exact forM_ok fun y hy => h y (List.mem_cons_of_mem x hy)

/-- A step for every member gives one result for each of them. -/
theorem forall₂_of_mapM_ok {β γ ε : Type} {f : β → Except ε γ} : ∀ {xs : List β} {ys : List γ},
    xs.mapM f = .ok ys → List.Forall₂ (fun x y => f x = .ok y) xs ys
  | [], ys, h => by
    obtain rfl : [] = ys := by simpa [pure, Except.pure] using h
    exact .nil
  | x :: xs, ys, h => by
    rw [List.mapM_cons] at h
    obtain ⟨y, hy, h⟩ := exists_ok_of_bind h
    obtain ⟨zs, hzs, h⟩ := exists_ok_of_bind h
    obtain rfl := Except.ok.inj h
    exact .cons hy (forall₂_of_mapM_ok hzs)

namespace Job

/-- Every operator stands after its producers; those in `placed` stand before all. -/
def ProducersFirst : List OpId → List Operator → Prop
  | _, [] => True
  | placed, op :: ops =>
    (∀ id ∈ op.producers, id ∈ placed) ∧ ProducersFirst (op.id :: placed) ops

/-- An accepted job in the order in which it is laid out. -/
structure Listing (ops : List Operator) : Prop where
  ids_nodup : (ops.map (·.id)).Nodup
  producers_first : ProducersFirst [] ops
  shaped : ∀ op ∈ ops, op.checkShape = .ok ()
  consumed : ∀ op ∈ ops, op.kind.isSink = false → ∃ reader ∈ ops, op.id ∈ reader.producers
  has_sink : ∃ op ∈ ops, op.kind.isSink = true

/-! ## §2 The search for an order -/

/-- What the search lists is the waiting operators, each after its producers. -/
theorem orderWithin_spec : ∀ {rounds : Nat} {placed : List OpId} {waiting : List (Nat × Operator)}
    {positions : List Nat}, (waiting.map (·.1)).Nodup →
      orderWithin rounds placed waiting = some positions →
        ∃ ws : List (Nat × Operator), ws.Perm waiting ∧ positions = ws.map (·.1) ∧
          ProducersFirst placed (ws.map (·.2))
  | 0, placed, waiting, positions, _, h => by
    unfold orderWithin at h
    split at h
    · rename_i hempty
      obtain rfl : waiting = [] := by simpa using hempty
      obtain rfl : [] = positions := by simpa using h
      exact ⟨[], .nil, rfl, trivial⟩
    · simp at h
  | rounds + 1, placed, waiting, positions, hnodup, h => by
    unfold orderWithin at h
    split at h
    · rename_i next hnext
      obtain ⟨rest, hrest, rfl⟩ := Option.map_eq_some_iff.1 h
      have hready := List.find?_some hnext
      have hsub : ((waiting.filter (·.1 != next.1)).map (·.1)).Nodup :=
        hnodup.sublist (List.filter_sublist.map _)
      obtain ⟨ws, hperm, rfl, hfirst⟩ := orderWithin_spec hsub hrest
      refine ⟨next :: ws, ?_, rfl, ?_, hfirst⟩
      · exact (hperm.cons next).trans (perm_cons_filter hnodup (List.mem_of_find?_eq_some hnext))
      · simpa [isReady] using hready
    · split at h
      · rename_i hempty
        obtain rfl : waiting = [] := by simpa using hempty
        obtain rfl : [] = positions := by simpa using h
        exact ⟨[], .nil, rfl, trivial⟩
      · simp at h

/-! ## §3 The check -/

/-- A job whose numbers never repeat has pairwise different numbers. -/
theorem nodup_of_repeated? : ∀ {ops : List Operator} {seen : List OpId},
    repeated? seen ops = none → (ops.map (·.id)).Nodup ∧ ∀ op ∈ ops, op.id ∉ seen
  | [], seen, _ => by simp
  | op :: ops, seen, h => by
    unfold repeated? at h
    split at h
    · simp at h
    · rename_i hseen
      obtain ⟨hnodup, hfresh⟩ := nodup_of_repeated? h
      constructor
      · rw [List.map_cons, List.nodup_cons]
        refine ⟨?_, hnodup⟩
        intro hmem
        obtain ⟨op', hop', hid⟩ := List.mem_map.1 hmem
        exact hfresh op' hop' (by simp [hid])
      · intro op' hop'
        rcases List.mem_cons.1 hop' with rfl | hop'
        · exact hseen
        · intro hmem
          exact hfresh op' hop' (by simp [hmem])

theorem find?_of_mem {job : Job} {op : Operator}
    (hnodup : (job.operators.map (·.id)).Nodup) (hop : op ∈ job.operators) :
    job.find? op.id = some op := by
  cases hfind : job.find? op.id with
  | none => simpa using List.find?_eq_none.1 hfind op hop
  | some op' =>
    have hid : op'.id = op.id := by simpa using List.find?_some hfind
    rw [List.inj_on_of_nodup_map hnodup (List.mem_of_find?_eq_some hfind) hop hid]

/-- The operators at the positions of some indexed operators are those operators. -/
theorem filterMap_indexed (job : Job) {ws : List (Nat × Operator)} (h : ∀ w ∈ ws, w ∈ job.indexed) :
    (ws.map (·.1)).filterMap (fun i => job.operators[i]?) = ws.map (·.2) := by
  induction ws with
  | nil => rfl
  | cons w ws ih =>
    have hw : job.operators[w.1]? = some w.2 := by
      obtain ⟨i, hi, hget⟩ := List.mem_iff_getElem.1 (h w List.mem_cons_self)
      simp only [indexed, List.getElem_zip, List.getElem_range] at hget
      rw [← hget]
      simp
    have hws := ih fun v hv => h v (List.mem_cons_of_mem w hv)
    rw [List.map_cons, List.map_cons, List.filterMap_cons, hw, hws]

/-- The order in terms of the first operators that are ready. -/
theorem order_eq (job : Job) : job.order =
    (match repeated? [] job.operators with
    | some id => .error (.duplicateId id)
    | none => do
      job.operators.forM job.checkOperator
      match job.unconsumed? with
      | some op => .error (.noConsumer op.name)
      | none =>
        if !job.operators.any (·.kind.isSink) then .error .noSink
        else match orderWithin job.size [] job.indexed with
          | some positions => .ok positions
          | none => .error .cycle) := by
  unfold order
  cases hrepeated : repeated? [] job.operators with
  | some id => rfl
  | none =>
    obtain ⟨positions, hpositions⟩ := job.exists_countdown
    rw [orderWithin_eq_countdown (nodup_of_repeated? hrepeated).1 hpositions, hpositions]
    cases job.operators.forM job.checkOperator with
    | error fault => rfl
    | ok _ =>
      cases job.unconsumed? with
      | some op => rfl
      | none => by_cases hall : positions.length = job.size <;> simp [hall, bind, Except.bind]

/-- A job is accepted if it passes every check and an order is found. -/
theorem order_ok_iff {job : Job} {positions : List Nat} : job.order = .ok positions ↔
    repeated? [] job.operators = none ∧ job.operators.forM job.checkOperator = .ok () ∧
      job.unconsumed? = none ∧ job.operators.any (·.kind.isSink) = true ∧
        orderWithin job.size [] job.indexed = some positions := by
  rw [order_eq]
  cases repeated? [] job.operators with
  | some id => simp
  | none =>
    cases job.operators.forM job.checkOperator with
    | error fault => simp [bind, Except.bind]
    | ok _ =>
      cases job.unconsumed? with
      | some op => simp [bind, Except.bind]
      | none =>
        cases job.operators.any (·.kind.isSink) with
        | false => simp [bind, Except.bind]
        | true =>
          cases orderWithin job.size [] job.indexed with
          | none => simp [bind, Except.bind]
          | some found => simp [bind, Except.bind]

/-- The order lists positions of the job. -/
theorem lt_size_of_mem_order {job : Job} {positions : List Nat} (h : job.order = .ok positions)
    {i : Nat} (hi : i ∈ positions) : i < job.size := by
  obtain ⟨ws, hperm, rfl, -⟩ :=
    orderWithin_spec job.nodup_map_fst_indexed (order_ok_iff.1 h).2.2.2.2
  rw [(hperm.map _).mem_iff, map_fst_indexed] at hi
  exact List.mem_range.1 hi

/-- The operators that are laid out, in order, are an accepted listing of all operators. -/
theorem listing_of_order {job : Job} {positions : List Nat} (h : job.order = .ok positions) :
    Listing (positions.filterMap fun i => job.operators[i]?) ∧
      (positions.filterMap fun i => job.operators[i]?).Perm job.operators := by
  obtain ⟨hrepeated, hcheck, hconsumed, hsink, hfound⟩ := order_ok_iff.1 h
  obtain ⟨ws, hperm, rfl, hfirst⟩ := orderWithin_spec job.nodup_map_fst_indexed hfound
  rw [job.filterMap_indexed fun w hw => hperm.mem_iff.1 hw]
  have hops : (ws.map (·.2)).Perm job.operators := by
    rw [← job.map_snd_indexed]
    exact hperm.map _
  refine ⟨⟨?_, hfirst, ?_, ?_, ?_⟩, hops⟩
  · exact (hops.map _).nodup_iff.2 (nodup_of_repeated? hrepeated).1
  · intro op hop
    have hone := ok_of_forM_ok hcheck op (hops.mem_iff.1 hop)
    obtain ⟨⟨⟩, hshape, -⟩ := exists_ok_of_bind hone
    exact hshape
  · intro op hop hnot
    have hread := List.find?_eq_none.1 hconsumed op (hops.mem_iff.1 hop)
    simp only [hnot, Bool.not_false, Bool.true_and, Bool.not_eq_true', Bool.not_eq_false,
      isConsumed, List.any_eq_true, decide_eq_true_eq] at hread
    obtain ⟨reader, hreader, hmem⟩ := hread
    exact ⟨reader, hops.mem_iff.2 hreader, hmem⟩
  · obtain ⟨op, hop, hkind⟩ := List.any_eq_true.1 hsink
    exact ⟨op, hops.mem_iff.2 hop, hkind⟩

end Job

end FlowPlanner
