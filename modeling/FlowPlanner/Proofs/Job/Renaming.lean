/-
FlowPlanner.Proofs.Job.Renaming — what operator ids are for.

An id only says which mentions mean one operator. A job whose ids are exchanged for
others, different ones for different ones (`Job.rename`), passes the same checks in the
same order and is placed in the same order (`Job.order_rename`); where it is refused, the
fault is the same, with the new id in place of the old one.
-/
import FlowPlanner.Proofs.Job.Order
import Mathlib.Data.List.Find
import Mathlib.Data.Set.Function

namespace FlowPlanner

/-! ## §1 Renamed jobs -/

/-- The operator with other ids for itself and for the operators that it reads. -/
def Operator.rename (f : OpId → OpId) (op : Operator) : Operator :=
  { op with id := f op.id, inputs := op.inputs.map (·.map f) }

/-- The fault as it is reported of the renamed job. -/
def TopologyFault.rename (f : OpId → OpId) : TopologyFault → TopologyFault
  | duplicateId id => duplicateId (f id)
  | unknownProducer name id => unknownProducer name (f id)
  | fault => fault

/-- The failure as it is reported of the renamed job. -/
def Failure.rename (f : OpId → OpId) : Failure → Failure
  | topology fault => topology (fault.rename f)
  | failure => failure

namespace Job

/-- The job with other ids, its operators in the same order. -/
def rename (f : OpId → OpId) (job : Job) : Job := ⟨job.operators.map (·.rename f)⟩

/-- The ids that occur in a job. -/
def ids (job : Job) : Set OpId := {id | ∃ op ∈ job.operators, id = op.id ∨ id ∈ op.producers}

theorem id_mem_ids {job : Job} {op : Operator} (h : op ∈ job.operators) : op.id ∈ job.ids :=
  ⟨op, h, .inl rfl⟩

theorem producer_mem_ids {job : Job} {op : Operator} (h : op ∈ job.operators) {id : OpId}
    (hid : id ∈ op.producers) : id ∈ job.ids := ⟨op, h, .inr hid⟩

end Job

variable {f : OpId → OpId} {s : Set OpId}

theorem Operator.producers_rename (op : Operator) :
    (op.rename f).producers = op.producers.map f := by
  unfold producers rename
  exact List.map_flatten.symm

/-- Among ids that are kept apart, a renamed list has the renamed id just if the list has the id. -/
theorem mem_map_iff_of_injOn (hf : Set.InjOn f s) {ids : List OpId} (hids : ∀ x ∈ ids, x ∈ s)
    {id : OpId} (hid : id ∈ s) : f id ∈ ids.map f ↔ id ∈ ids := by
  rw [List.mem_map]
  constructor
  · rintro ⟨x, hx, heq⟩
    rwa [← hf (hids x hx) hid heq]
  · intro h
    exact ⟨id, h, rfl⟩

/-- Checks in a row, each of which fails alike, fail alike. -/
theorem forM_map_mapError {β γ ε : Type} {g : β → Except ε Unit} {g' : γ → Except ε Unit}
    {u : β → γ} {φ : ε → ε} : ∀ {xs : List β}, (∀ x ∈ xs, g' (u x) = (g x).mapError φ) →
      (xs.map u).forM g' = (xs.forM g).mapError φ
  | [], _ => rfl
  | x :: xs, h => by
    have ih : (xs.map u).forM g' = (xs.forM g).mapError φ :=
      forM_map_mapError fun y hy => h y (List.mem_cons_of_mem x hy)
    show (g' (u x) >>= fun _ => (xs.map u).forM g') = (g x >>= fun _ => xs.forM g).mapError φ
    rw [h x List.mem_cons_self, ih]
    cases g x <;> rfl

/-! ## §2 The checks -/

namespace Operator

theorem checkShape_rename (op : Operator) : (op.rename f).checkShape = op.checkShape := by
  have hempty : (op.rename f).inputs.findIdx? (·.isEmpty) = op.inputs.findIdx? (·.isEmpty) := by
    show (op.inputs.map (·.map f)).findIdx? (·.isEmpty) = _
    rw [List.findIdx?_map]
    congr 1
    funext input
    exact List.isEmpty_map
  have hlength : (op.rename f).inputs.length = op.inputs.length := List.length_map _
  unfold checkShape
  rw [hempty, hlength]
  rfl

theorem checkShape_mapError_rename (op : Operator) :
    op.checkShape.mapError (TopologyFault.rename f) = op.checkShape := by
  unfold checkShape
  split
  · rfl
  · split
    · rfl
    · split
      · rfl
      · split <;> rfl

end Operator

namespace Job

variable {job : Job}

theorem find?_rename (hf : Set.InjOn f job.ids) {id : OpId} (hid : id ∈ job.ids) :
    (job.rename f).find? (f id) = (job.find? id).map (·.rename f) := by
  unfold find? rename
  rw [List.find?_map]
  congr 1
  refine List.find?_congr ?_
  intro op hop
  have hiff : (op.rename f).id = f id ↔ op.id = id := hf.eq_iff (id_mem_ids hop) hid
  exact Bool.eq_iff_iff.2 (by simpa using hiff)

theorem checkProducer_rename (hf : Set.InjOn f job.ids) (op : Operator) {id : OpId}
    (hid : id ∈ job.ids) : (job.rename f).checkProducer (op.rename f) (f id) =
      (job.checkProducer op id).mapError (TopologyFault.rename f) := by
  unfold checkProducer
  rw [find?_rename hf hid]
  cases job.find? id with
  | none => rfl
  | some producer =>
    dsimp only [Option.map_some]
    rw [show (producer.rename f).kind = producer.kind from rfl]
    split <;> rfl

theorem checkOperator_rename (hf : Set.InjOn f job.ids) {op : Operator}
    (hop : op ∈ job.operators) : (job.rename f).checkOperator (op.rename f) =
      (job.checkOperator op).mapError (TopologyFault.rename f) := by
  unfold checkOperator
  rw [op.checkShape_rename, op.producers_rename,
    forM_map_mapError fun id hid => checkProducer_rename hf op (producer_mem_ids hop hid)]
  have hshape := op.checkShape_mapError_rename (f := f)
  cases hcheck : op.checkShape with
  | error fault =>
    rw [hcheck] at hshape
    exact hshape.symm
  | ok _ => rfl

theorem repeated?_rename (hf : Set.InjOn f s) : ∀ (ops : List Operator) (seen : List OpId),
    (∀ op ∈ ops, op.id ∈ s) → (∀ x ∈ seen, x ∈ s) →
      repeated? (seen.map f) (ops.map (·.rename f)) = (repeated? seen ops).map f
  | [], _, _, _ => rfl
  | op :: ops, seen, hops, hseen => by
    have hop := hops op List.mem_cons_self
    have hiff : (op.rename f).id ∈ seen.map f ↔ op.id ∈ seen := mem_map_iff_of_injOn hf hseen hop
    have ih := repeated?_rename hf ops (op.id :: seen)
      (fun x hx => hops x (List.mem_cons_of_mem op hx)) (List.forall_mem_cons.2 ⟨hop, hseen⟩)
    unfold repeated?
    rw [List.map_cons]
    dsimp only
    simp only [hiff]
    split
    · rfl
    · exact ih

theorem isConsumed_rename (hf : Set.InjOn f job.ids) {id : OpId} (hid : id ∈ job.ids) :
    (job.rename f).isConsumed (f id) = job.isConsumed id := by
  unfold isConsumed rename
  rw [List.any_map, Bool.eq_iff_iff, List.any_eq_true, List.any_eq_true]
  refine exists_congr fun op => and_congr_right fun hop => ?_
  rw [Function.comp_apply, op.producers_rename, decide_eq_true_iff, decide_eq_true_iff]
  exact mem_map_iff_of_injOn hf (fun x hx => producer_mem_ids hop hx) hid

theorem unconsumed?_rename (hf : Set.InjOn f job.ids) :
    (job.rename f).unconsumed? = job.unconsumed?.map (·.rename f) := by
  unfold unconsumed?
  rw [show (job.rename f).operators = job.operators.map (·.rename f) from rfl, List.find?_map]
  congr 1
  refine List.find?_congr ?_
  intro op hop
  rw [Function.comp_apply, show (op.rename f).id = f op.id from rfl,
    isConsumed_rename hf (id_mem_ids hop)]
  rfl

/-! ## §3 The order -/

theorem orderWithin_rename (hf : Set.InjOn f s) : ∀ (rounds : Nat) (placed : List OpId)
    (waiting : List (Nat × Operator)), (∀ x ∈ placed, x ∈ s) →
      (∀ w ∈ waiting, w.2.id ∈ s ∧ ∀ x ∈ w.2.producers, x ∈ s) →
        orderWithin rounds (placed.map f) (waiting.map (Prod.map id (·.rename f))) =
          orderWithin rounds placed waiting
  | 0, placed, waiting, _, _ => by
    unfold orderWithin
    rw [List.isEmpty_map]
  | rounds + 1, placed, waiting, hplaced, hwaiting => by
    have hready : (waiting.map (Prod.map id (·.rename f))).find?
          (fun w => isReady (placed.map f) w.2) =
        (waiting.find? fun w => isReady placed w.2).map (Prod.map id (·.rename f)) := by
      rw [List.find?_map]
      congr 1
      refine List.find?_congr ?_
      intro w hw
      unfold isReady
      rw [Function.comp_apply, show (Prod.map id (Operator.rename f) w).2 = w.2.rename f from rfl,
        w.2.producers_rename, List.all_map, Bool.eq_iff_iff, List.all_eq_true, List.all_eq_true]
      refine forall₂_congr fun x hx => ?_
      rw [Function.comp_apply, decide_eq_true_iff, decide_eq_true_iff]
      exact mem_map_iff_of_injOn hf hplaced ((hwaiting w hw).2 x hx)
    unfold orderWithin
    rw [hready, List.isEmpty_map]
    cases hfind : waiting.find? fun w => isReady placed w.2 with
    | none => rfl
    | some next =>
      have hnext := (hwaiting next (List.mem_of_find?_eq_some hfind)).1
      have hrest : (waiting.map (Prod.map id (·.rename f))).filter (·.1 != next.1) =
          (waiting.filter (·.1 != next.1)).map (Prod.map id (·.rename f)) := List.filter_map
      have ih := orderWithin_rename hf rounds (next.2.id :: placed)
        (waiting.filter (·.1 != next.1)) (List.forall_mem_cons.2 ⟨hnext, hplaced⟩)
        (fun w hw => hwaiting w (List.mem_of_mem_filter hw))
      dsimp only [Option.map_some]
      rw [show (Prod.map id (Operator.rename f) next).1 = next.1 from rfl, hrest]
      exact congrArg (Option.map (next.1 :: ·)) ih

theorem indexed_rename (job : Job) :
    (job.rename f).indexed = job.indexed.map (Prod.map id (·.rename f)) := by
  unfold indexed size rename
  rw [List.length_map, List.zip_map_right]

/-- Renaming the operators of a job changes nothing about their order, and of a fault only the
ids. -/
theorem order_rename (hf : Set.InjOn f job.ids) :
    (job.rename f).order = job.order.mapError (TopologyFault.rename f) := by
  have hrepeated : repeated? [] (job.rename f).operators = (repeated? [] job.operators).map f :=
    repeated?_rename hf job.operators [] (fun op hop => id_mem_ids hop) (by simp)
  have hchecks : (job.rename f).operators.forM (job.rename f).checkOperator =
      (job.operators.forM job.checkOperator).mapError (TopologyFault.rename f) :=
    forM_map_mapError fun op hop => checkOperator_rename hf hop
  have hsinks : (job.rename f).operators.any (·.kind.isSink) =
      job.operators.any (·.kind.isSink) := List.any_map
  have hwithin : orderWithin (job.rename f).size [] (job.rename f).indexed =
      orderWithin job.size [] job.indexed := by
    rw [indexed_rename, show (job.rename f).size = job.size from List.length_map _]
    refine orderWithin_rename hf job.size [] job.indexed (by simp) ?_
    intro w hw
    have hop : w.2 ∈ job.operators := (List.of_mem_zip hw).2
    exact ⟨id_mem_ids hop, fun x hx => producer_mem_ids hop hx⟩
  rw [order_eq, order_eq, hrepeated, hchecks, unconsumed?_rename hf, hsinks, hwithin]
  cases repeated? [] job.operators with
  | some id => rfl
  | none =>
    dsimp only [Option.map_none]
    cases job.operators.forM job.checkOperator with
    | error fault => rfl
    | ok _ =>
      cases job.unconsumed? with
      | some op => rfl
      | none =>
        dsimp only [Except.mapError, bind, Except.bind, Option.map_none]
        split
        · rfl
        · split <;> rfl

end Job

end FlowPlanner
