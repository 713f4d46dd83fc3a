/-
FlowPlanner.Proofs.Job.Countdown — counting down producers.

While operators are placed, the count of an operator is the number of its producers that
are still to be placed, repeats counted, and the operators that are ready are those not
placed whose count is zero (`Countdown.Keeps`). When an operator is placed, each reader's
count is lowered as often as it lists the operator, so no count is lowered from zero
(`Countdown.Keeps.place`), and a countdown always comes to an end (`exists_countdown`).
It takes in every round the first operator whose producers are all placed, which is said
without counts by `orderWithin` (`orderWithin_eq_countdown`).
-/
import FlowPlanner.Job.Order
import Mathlib.Data.List.Count
import Mathlib.Data.List.GetD
import Mathlib.Data.List.Nodup
import Mathlib.Data.List.Perm.Basic

namespace FlowPlanner

namespace Job

/-! ## §1 Operators by position -/

theorem map_snd_indexed (job : Job) : job.indexed.map (·.2) = job.operators := by
  simp [indexed, size, List.map_snd_zip]

theorem map_fst_indexed (job : Job) : job.indexed.map (·.1) = List.range job.size := by
  simp [indexed, size, List.map_fst_zip]

theorem nodup_map_fst_indexed (job : Job) : (job.indexed.map (·.1)).Nodup := by
  rw [map_fst_indexed]
  exact List.nodup_range

theorem mem_indexed_iff {job : Job} {w : Nat × Operator} :
    w ∈ job.indexed ↔ job.operators[w.1]? = some w.2 := by
  rw [List.mem_iff_getElem?]
  unfold indexed size
  constructor
  · rintro ⟨i, hi⟩
    obtain ⟨hrange, hop⟩ := List.getElem?_zip_eq_some.1 hi
    obtain ⟨_, hget⟩ := List.getElem?_eq_some_iff.1 hrange
    rw [List.getElem_range] at hget
    rw [← hget]
    exact hop
  · intro h
    obtain ⟨hlt, -⟩ := List.getElem?_eq_some_iff.1 h
    exact ⟨w.1, List.getElem?_zip_eq_some.2 ⟨List.getElem?_range hlt, h⟩⟩

/-- Among entries with different keys, taking one out and dropping its key leaves a
rearrangement. -/
theorem perm_cons_filter {w : Nat × Operator} : ∀ {ws : List (Nat × Operator)},
    (ws.map (·.1)).Nodup → w ∈ ws → (w :: ws.filter (·.1 != w.1)).Perm ws
  | v :: vs, hnodup, hw => by
    rw [List.map_cons, List.nodup_cons] at hnodup
    obtain ⟨hv, hvs⟩ := hnodup
    rcases List.mem_cons.1 hw with rfl | hw
    · have hkeep : vs.filter (·.1 != w.1) = vs := by
        rw [List.filter_eq_self]
        intro u hu
        have hne : u.1 ≠ w.1 := by
          intro h
          exact hv (h ▸ List.mem_map_of_mem hu)
        simpa using hne
      rw [List.filter_cons_of_neg (by simp), hkeep]
    · have hne : v.1 ≠ w.1 := by
        intro h
        exact hv (h ▸ List.mem_map_of_mem hw)
      rw [List.filter_cons_of_pos (by simpa using hne)]
      exact (List.Perm.swap v w _).trans ((perm_cons_filter hvs hw).cons v)

/-! ## §2 Counts -/

/-- How many producers of an operator stand at none of some positions, repeats counted. -/
def unplaced (job : Job) (done : List Nat) (op : Operator) : Nat :=
  op.producers.countP fun id => !done.any fun i => job.position? id == some i

theorem unplaced_nil (job : Job) (op : Operator) : job.unplaced [] op = op.producers.length :=
  List.countP_eq_length.2 fun _ _ => rfl

/-- Where every entry of a list contributes its own number only, a number that occurs once is
contributed by one entry. -/
theorem count_flatMap {w : Nat × Operator} {f : Nat × Operator → List Nat}
    (hf : ∀ v, ∀ i ∈ f v, i = v.1) : ∀ {ws : List (Nat × Operator)}, (ws.map (·.1)).Nodup →
      w ∈ ws → (ws.flatMap f).count w.1 = (f w).count w.1
  | v :: vs, hnodup, hw => by
    obtain ⟨hv, hvs⟩ := List.nodup_cons.1 hnodup
    rw [List.flatMap_cons, List.count_append]
    rcases List.mem_cons.1 hw with rfl | hw
    · have hrest : (vs.flatMap f).count w.1 = 0 := by
        rw [List.count_eq_zero]
        intro hmem
        obtain ⟨u, hu, hfu⟩ := List.mem_flatMap.1 hmem
        exact hv (List.mem_map.2 ⟨u, hu, (hf u w.1 hfu).symm⟩)
      rw [hrest, Nat.add_zero]
    · have hfirst : (f v).count w.1 = 0 := by
        rw [List.count_eq_zero]
        intro hmem
        exact hv (List.mem_map.2 ⟨w, hw, hf v w.1 hmem⟩)
      rw [hfirst, Nat.zero_add]
      exact count_flatMap hf hvs hw

/-- A reader stands among the readers of a producer as often as it lists the producer. -/
theorem count_readersOf {job : Job} {i : Nat} {op : Operator} (h : job.operators[i]? = some op)
    (p : Nat) : (job.readersOf p).count i =
      op.producers.countP fun id => job.position? id == some p := by
  have hw : (i, op) ∈ job.indexed := mem_indexed_iff.2 h
  unfold readersOf
  rw [count_flatMap (w := (i, op)) (by simp) job.nodup_map_fst_indexed hw, List.map_const',
    List.count_replicate_self, List.countP_eq_length_filter]

theorem lt_size_of_mem_readersOf {job : Job} {p i : Nat} (h : i ∈ job.readersOf p) :
    i < job.size := by
  obtain ⟨w, hw, hi⟩ := List.mem_flatMap.1 h
  obtain ⟨id, -, rfl⟩ := List.mem_map.1 hi
  exact (List.getElem?_eq_some_iff.1 (mem_indexed_iff.1 hw)).1

/-- Once one more operator is placed, what lists it has as many unplaced producers less. -/
theorem unplaced_cons {job : Job} {done : List Nat} {p : Nat} (hp : p ∉ done) (op : Operator) :
    job.unplaced (p :: done) op + op.producers.countP (fun id => job.position? id == some p) =
      job.unplaced done op := by
  unfold unplaced
  induction op.producers with
  | nil => rfl
  | cons id ids ih =>
    have hnew : job.position? id = some p →
        (done.any fun i => job.position? id == some i) = false := by
      intro hid
      rw [hid, List.any_eq_false]
      intro i hi heq
      obtain rfl : p = i := by simpa using heq
      exact hp hi
    simp only [List.countP_cons, List.any_cons] at ih ⊢
    by_cases hid : job.position? id = some p
    · have hself : (job.position? id == some p) = true := by simpa using hid
      rw [hself, hnew hid]
      simp only [Bool.true_or, Bool.not_true, Bool.not_false, Bool.false_eq_true, if_false, if_true]
      omega
    · have hother : (job.position? id == some p) = false := by simpa using hid
      rw [hother, Bool.false_or]
      simp only [Bool.false_eq_true, if_false]
      omega

theorem unplaced_cons_add_count {job : Job} {done : List Nat} {p : Nat} (hp : p ∉ done) {i : Nat}
    {op : Operator} (hop : job.operators[i]? = some op) :
    job.unplaced (p :: done) op + (job.readersOf p).count i = job.unplaced done op := by
  rw [count_readersOf hop, unplaced_cons hp]

namespace Countdown

/-- What a countdown has become when one producer of each of some readers was placed. -/
structure Lowers (s : Countdown) (readers : List Nat) (s' : Countdown) : Prop where
  lower_eq : readers.foldlM lower s = some s'
  length_eq : s'.missing.length = s.missing.length
  missing_eq : ∀ i, s'.missing.getD i 0 = s.missing.getD i 0 - readers.count i
  ascending : s.ready.Pairwise (· < ·) → s'.ready.Pairwise (· < ·)
  mem_ready : ∀ i, i ∈ s'.ready ↔
    i ∈ s.ready ∨ i ∈ readers ∧ s.missing.getD i 0 = readers.count i

/-- A count that is not zero can be lowered. -/
theorem exists_lowers_one {s : Countdown} {r : Nat} (h : 0 < s.missing.getD r 0) :
    ∃ s', s.Lowers [r] s' := by
  rw [List.getD_eq_getElem?_getD] at h
  obtain ⟨n, hn⟩ : ∃ n, s.missing[r]? = some (n + 1) := by
    cases hget : s.missing[r]? with
    | none => simp [hget] at h
    | some m =>
      rw [hget, Option.getD_some] at h
      exact ⟨m - 1, by rw [Nat.sub_add_cancel h]⟩
  obtain ⟨hlt, -⟩ := List.getElem?_eq_some_iff.1 hn
  refine ⟨⟨s.missing.set r n,
    if n == 0 then FieldSet.insertSorted r s.ready else s.ready⟩, ?_, ?_, ?_, ?_, ?_⟩
  · unfold List.foldlM lower
    rw [hn]
    rfl
  · exact List.length_set
  · intro i
    dsimp only
    rw [List.getD_eq_getElem?_getD, List.getD_eq_getElem?_getD, List.getElem?_set]
    by_cases hi : r = i
    · subst hi
      rw [if_pos rfl, if_pos hlt, hn]
      simp
    · simp [hi]
  · intro hasc
    dsimp only
    split
    · exact FieldSet.pairwise_insertSorted hasc
    · exact hasc
  · intro i
    dsimp only
    rw [List.getD_eq_getElem?_getD]
    by_cases hi : i = r
    · subst hi
      by_cases hzero : n = 0 <;> simp [hn, hzero, FieldSet.mem_insertSorted]
    · by_cases hzero : n = 0 <;> simp [hi, hzero, FieldSet.mem_insertSorted]

/-- Lowering the counts of some readers one after the other. -/
theorem Lowers.cons {s s₁ s' : Countdown} {r : Nat} {rs : List Nat} (h : s.Lowers [r] s₁)
    (hle : rs.count r < s.missing.getD r 0) (h' : s₁.Lowers rs s') : s.Lowers (r :: rs) s' := by
  have hcount : ∀ i, (r :: rs).count i = [r].count i + rs.count i := fun i => by
    rw [← List.count_append]
    rfl
  refine ⟨?_, h'.length_eq.trans h.length_eq, ?_, fun hasc => h'.ascending (h.ascending hasc), ?_⟩
  · have hlower := h.lower_eq
    rw [List.foldlM_cons] at hlower ⊢
    obtain ⟨s₂, hs₂, heq⟩ := Option.bind_eq_some_iff.1 hlower
    obtain rfl : s₂ = s₁ := by simpa using heq
    rw [hs₂]
    exact h'.lower_eq
  · intro i
    rw [h'.missing_eq, h.missing_eq, hcount, Nat.sub_sub]
  · intro i
    rw [h'.mem_ready, h.mem_ready, h.missing_eq, hcount, List.mem_singleton, List.mem_cons]
    by_cases hi : i = r
    · subst hi
      have hmem : i ∈ rs ↔ 0 < rs.count i := List.count_pos_iff.symm
      rw [List.count_singleton_self, hmem]
      by_cases hready : i ∈ s.ready
      · simp [hready]
      · simp only [hready, false_or, true_and, true_or]
        omega
    · have hzero : [r].count i = 0 := List.count_eq_zero.2 (by simpa using hi)
      simp [hi, hzero]

/-- Counts can be lowered as long as they are large enough. -/
theorem exists_lowers : ∀ {readers : List Nat} {s : Countdown},
    (∀ i, readers.count i ≤ s.missing.getD i 0) → ∃ s', s.Lowers readers s'
  | [], s, _ => ⟨s, rfl, rfl, fun _ => rfl, fun h => h, fun _ => by simp⟩
  | r :: rs, s, h => by
    have hr := h r
    rw [List.count_cons_self] at hr
    obtain ⟨s₁, hs₁⟩ := exists_lowers_one (Nat.lt_of_lt_of_le (Nat.succ_pos _) hr)
    have hrs : ∀ i, rs.count i ≤ s₁.missing.getD i 0 := by
      intro i
      have hi := h i
      rw [show r :: rs = [r] ++ rs from rfl, List.count_append] at hi
      rw [hs₁.missing_eq]
      exact Nat.le_sub_of_add_le (Nat.add_comm _ _ ▸ hi)
    obtain ⟨s', hs'⟩ := exists_lowers hrs
    exact ⟨s', hs₁.cons hr hs'⟩

/-! ## §3 The countdown of a job -/

/-- After some operators were placed: every count is the number of producers not placed, what was
placed waits for nothing, and what is ready waits for nothing and is not placed. -/
structure Keeps (job : Job) (done : List Nat) (s : Countdown) : Prop where
  missing_eq : s.missing = job.operators.map (job.unplaced done)
  ascending : s.ready.Pairwise (· < ·)
  mem_ready : ∀ i op, job.operators[i]? = some op →
    (i ∈ s.ready ↔ i ∉ done ∧ job.unplaced done op = 0)
  lt_size : ∀ i ∈ s.ready, i < job.size
  placed : ∀ i ∈ done, ∀ op, job.operators[i]? = some op → job.unplaced done op = 0

theorem keeps_start (job : Job) : Keeps job [] (start job) := by
  have hmissing : (start job).missing = job.operators.map (job.unplaced []) :=
    List.map_congr_left fun op _ => (job.unplaced_nil op).symm
  have hready : (start job).ready =
      (List.range job.size).filter fun i => (start job).missing[i]? == some 0 := rfl
  refine ⟨hmissing, List.pairwise_lt_range.filter _, ?_, ?_, by simp⟩
  · intro i op hop
    have hlt : i < job.size := (List.getElem?_eq_some_iff.1 hop).1
    rw [hready, List.mem_filter, hmissing, List.mem_range, List.getElem?_map, hop]
    simp [hlt]
  · intro i hi
    rw [hready] at hi
    exact List.mem_range.1 (List.mem_of_mem_filter hi)

namespace Keeps

variable {job : Job} {done : List Nat} {s s' : Countdown} {next : Nat} {rest : List Nat}

theorem getD_missing (h : Keeps job done s) {i : Nat} {op : Operator}
    (hop : job.operators[i]? = some op) : s.missing.getD i 0 = job.unplaced done op := by
  rw [h.missing_eq, List.getD_eq_getElem?_getD, List.getElem?_map, hop]
  rfl

/-- What is ready was not placed and waits for nothing. -/
theorem spec_of_mem_ready (h : Keeps job done s) (hnext : next ∈ s.ready) :
    next ∉ done ∧ ∀ op, job.operators[next]? = some op → job.unplaced done op = 0 := by
  have hmem := fun op hop => (h.mem_ready next op hop).1 hnext
  exact ⟨(hmem _ (List.getElem?_eq_getElem (h.lt_size next hnext))).1,
    fun op hop => (hmem op hop).2⟩

/-- What is placed with the next operator waits for nothing. -/
theorem unplaced_eq_zero (h : Keeps job done s) (hnext : next ∈ s.ready) {i : Nat}
    (hi : i ∈ next :: done) {op : Operator} (hop : job.operators[i]? = some op) :
    job.unplaced done op = 0 := by
  rcases List.mem_cons.1 hi with rfl | hi
  · exact (h.spec_of_mem_ready hnext).2 op hop
  · exact h.placed i hi op hop

/-- An operator reads a producer that was not placed no more often than its count says. -/
theorem count_readersOf_le (h : Keeps job done s) (hnext : next ∉ done) (i : Nat) :
    (job.readersOf next).count i ≤ s.missing.getD i 0 := by
  cases hop : job.operators[i]? with
  | none =>
    rw [List.count_eq_zero.2 fun hi => absurd (lt_size_of_mem_readersOf hi)
      (Nat.not_lt_of_le (List.getElem?_eq_none_iff.1 hop))]
    exact Nat.zero_le _
  | some op =>
    rw [h.getD_missing hop, ← unplaced_cons_add_count hnext hop]
    exact Nat.le_add_left _ _

/-- Once the counts of its readers are lowered, the producer counts as placed. -/
theorem missing_of_lowers (h : Keeps job done s) (hnext : next ∉ done)
    (hs' : Lowers { s with ready := rest } (job.readersOf next) s') :
    s'.missing = job.operators.map (job.unplaced (next :: done)) := by
  have hlen : s'.missing.length = job.operators.length := by
    rw [hs'.length_eq, h.missing_eq, List.length_map]
  refine List.ext_getElem? fun i => ?_
  rw [List.getElem?_map]
  cases hop : job.operators[i]? with
  | none =>
    rw [List.getElem?_eq_none (hlen ▸ List.getElem?_eq_none_iff.1 hop)]
    rfl
  | some op =>
    have hi : i < s'.missing.length := hlen ▸ (List.getElem?_eq_some_iff.1 hop).1
    have hvalue := hs'.missing_eq i
    rw [List.getD_eq_getElem _ _ hi, h.getD_missing hop, ← unplaced_cons_add_count hnext hop,
      Nat.add_sub_cancel] at hvalue
    rw [List.getElem?_eq_getElem hi, hvalue]
    rfl

/-- Once the counts of its readers are lowered, those that waited for nothing else are ready. -/
theorem mem_ready_of_lowers (h : Keeps job done s) (hready : s.ready = next :: rest)
    (hs' : Lowers { s with ready := rest } (job.readersOf next) s') {i : Nat} {op : Operator}
    (hop : job.operators[i]? = some op) :
    i ∈ s'.ready ↔ i ∉ next :: done ∧ job.unplaced (next :: done) op = 0 := by
  have hnext : next ∈ s.ready := hready ▸ List.mem_cons_self
  have hsplit := unplaced_cons_add_count (h.spec_of_mem_ready hnext).1 hop
  have hfirst := (List.pairwise_cons.1 (hready ▸ h.ascending)).1
  have hold := h.mem_ready i op hop
  rw [hready, List.mem_cons, ← hsplit] at hold
  rw [hs'.mem_ready, h.getD_missing hop, ← hsplit]
  have hreads : i ∈ job.readersOf next ↔ 0 < (job.readersOf next).count i :=
    List.count_pos_iff.symm
  -- What was placed up to now reads nothing that is placed now.
  have hunread : i ∈ next :: done → i ∉ job.readersOf next := by
    intro hi hmem
    have hbefore := h.unplaced_eq_zero hnext hi hop
    rw [← hsplit] at hbefore
    exact absurd (hreads.1 hmem) (by omega)
  constructor
  · rintro (hi | ⟨hi, heq⟩)
    · obtain ⟨hdone, hsum⟩ := hold.1 (.inr hi)
      exact ⟨List.not_mem_cons_of_ne_of_not_mem (Nat.ne_of_lt (hfirst i hi)).symm hdone,
        (Nat.add_eq_zero_iff.1 hsum).1⟩
    · exact ⟨fun hplaced => hunread hplaced hi, by omega⟩
  · rintro ⟨hplaced, hsum⟩
    obtain ⟨hne, hdone⟩ := List.ne_and_not_mem_of_not_mem_cons hplaced
    by_cases hi : i ∈ job.readersOf next
    · exact .inr ⟨hi, by omega⟩
    · have hnone : (job.readersOf next).count i = 0 := List.count_eq_zero.2 hi
      exact .inl ((hold.2 ⟨hdone, by omega⟩).resolve_left hne)

/-- Placing the first ready operator lowers the counts of its readers, none of them from zero. -/
theorem place (h : Keeps job done s) (hready : s.ready = next :: rest) :
    ∃ s', (job.readersOf next).foldlM lower { s with ready := rest } = some s' ∧
      Keeps job (next :: done) s' := by
  have hnext : next ∈ s.ready := hready ▸ List.mem_cons_self
  have hfresh := (h.spec_of_mem_ready hnext).1
  have hrest := (List.pairwise_cons.1 (hready ▸ h.ascending)).2
  obtain ⟨s', hs'⟩ := exists_lowers (s := { s with ready := rest }) (h.count_readersOf_le hfresh)
  refine ⟨s', hs'.lower_eq, h.missing_of_lowers hfresh hs', hs'.ascending hrest,
    fun i op hop => h.mem_ready_of_lowers hready hs' hop, ?_, ?_⟩
  · intro i hi
    rcases (hs'.mem_ready i).1 hi with hi | ⟨hi, -⟩
    · exact h.lt_size i (hready ▸ List.mem_cons_of_mem next hi)
    · exact lt_size_of_mem_readersOf hi
  · intro i hi op hop
    exact Nat.eq_zero_of_add_eq_zero_right
      ((unplaced_cons_add_count hfresh hop).trans (h.unplaced_eq_zero hnext hi hop))

end Keeps

/-- The positions at which nothing was placed yet. -/
def waiting (job : Job) (done : List Nat) : List (Nat × Operator) :=
  job.indexed.filter fun w => w.1 ∉ done

theorem waiting_cons (job : Job) (next : Nat) (done : List Nat) :
    waiting job (next :: done) = (waiting job done).filter (·.1 != next) := by
  unfold waiting
  rw [List.filter_filter]
  refine List.filter_congr fun w _ => ?_
  by_cases hw : w.1 = next <;> simp [hw]

theorem length_waiting_cons {job : Job} {w : Nat × Operator} {done : List Nat}
    (hw : w ∈ waiting job done) :
    (waiting job (w.1 :: done)).length + 1 = (waiting job done).length := by
  have hnodup : ((waiting job done).map (·.1)).Nodup :=
    job.nodup_map_fst_indexed.sublist (List.filter_sublist.map _)
  rw [waiting_cons, ← (perm_cons_filter hnodup hw).length_eq, List.length_cons]

theorem mem_waiting_iff {job : Job} {done : List Nat} {w : Nat × Operator} :
    w ∈ waiting job done ↔ job.operators[w.1]? = some w.2 ∧ w.1 ∉ done := by
  unfold waiting
  rw [List.mem_filter, mem_indexed_iff, decide_eq_true_eq]

/-- What is ready is waiting. -/
theorem Keeps.exists_waiting {job : Job} {done : List Nat} {s : Countdown} (h : Keeps job done s)
    {i : Nat} (hi : i ∈ s.ready) :
    ∃ op, (i, op) ∈ waiting job done ∧ job.unplaced done op = 0 := by
  have hop := List.getElem?_eq_getElem (h.lt_size i hi)
  obtain ⟨hdone, hzero⟩ := (h.mem_ready i _ hop).1 hi
  exact ⟨_, mem_waiting_iff.2 ⟨hop, hdone⟩, hzero⟩

/-- A countdown comes to its end: no count is lowered from zero, and there is a round for each
operator. -/
theorem Keeps.exists_run {job : Job} : ∀ {rounds : Nat} {done : List Nat} {s : Countdown},
    Keeps job done s → (waiting job done).length ≤ rounds →
      ∃ placed, run job rounds s = some placed
  | 0, done, s, h, hlen => by
    have hnil : s.ready = [] := by
      rw [List.eq_nil_iff_forall_not_mem]
      intro i hi
      obtain ⟨op, hw, -⟩ := h.exists_waiting hi
      exact absurd (List.length_pos_of_mem hw) (Nat.not_lt_of_le hlen)
    exact ⟨[], by rw [run, hnil]; rfl⟩
  | rounds + 1, done, s, h, hlen => by
    unfold run
    cases hready : s.ready with
    | nil => exact ⟨[], rfl⟩
    | cons next rest =>
      obtain ⟨op, hw, -⟩ := h.exists_waiting (hready ▸ List.mem_cons_self)
      obtain ⟨s', hlower, hs'⟩ := h.place hready
      have hless : (waiting job (next :: done)).length ≤ rounds :=
        Nat.le_of_succ_le_succ (Nat.le_trans (Nat.le_of_eq (length_waiting_cons hw)) hlen)
      obtain ⟨placed, hplaced⟩ := hs'.exists_run hless
      refine ⟨next :: placed, ?_⟩
      dsimp only
      rw [hlower]
      simp [hplaced]

end Countdown

/-- For every job the countdown comes to its end, so none of its counts is lowered from zero. -/
theorem exists_countdown (job : Job) : ∃ placed, job.countdown = some placed := by
  refine (Countdown.keeps_start job).exists_run ?_
  unfold Countdown.waiting indexed
  exact Nat.le_trans (List.length_filter_le _ _) (by simp [size])

/-! ## §4 The first operator that is ready -/

/-- Every producer of an operator is among those placed. -/
def isReady (placed : List OpId) (op : Operator) : Bool := op.producers.all (· ∈ placed)

/-- Place operators one after the other, always the first waiting one whose producers are placed;
`none` when none of the waiting ones is ready. `rounds` bounds the number of placements. -/
def orderWithin : Nat → List OpId → List (Nat × Operator) → Option (List Nat)
  | 0, _, waiting => if waiting.isEmpty then some [] else none
  | rounds + 1, placed, waiting =>
    match waiting.find? (fun w => isReady placed w.2) with
    | some next =>
      (orderWithin rounds (next.2.id :: placed) (waiting.filter (·.1 != next.1))).map (next.1 :: ·)
    | none => if waiting.isEmpty then some [] else none

/-- An operator's id leads to its position. -/
theorem position?_eq {job : Job} (hnodup : (job.operators.map (·.id)).Nodup) {i : Nat}
    {op : Operator} (hop : job.operators[i]? = some op) (id : OpId) :
    job.position? id = some i ↔ id = op.id := by
  obtain ⟨hi, rfl⟩ := List.getElem?_eq_some_iff.1 hop
  unfold position?
  rw [List.findIdx?_eq_some_iff_getElem]
  constructor
  · rintro ⟨_, hid, _⟩
    exact (beq_iff_eq.1 hid).symm
  · rintro rfl
    refine ⟨hi, beq_self_eq_true _, fun j hji hid => ?_⟩
    have hlt := Nat.lt_trans hji hi
    have hne := List.pairwise_iff_getElem.1 hnodup j i (by simpa using hlt) (by simpa using hi) hji
    simp only [List.getElem_map] at hne
    exact hne (beq_iff_eq.1 hid)

namespace Countdown

/-- The ids are those of the operators at some positions. -/
def Names (job : Job) (done : List Nat) (placed : List OpId) : Prop :=
  ∀ id, id ∈ placed ↔ ∃ i ∈ done, job.position? id = some i

theorem Names.isReady_iff {job : Job} {done : List Nat} {placed : List OpId}
    (h : Names job done placed) (op : Operator) :
    isReady placed op = true ↔ job.unplaced done op = 0 := by
  unfold isReady unplaced
  rw [List.all_eq_true, List.countP_eq_zero]
  refine forall₂_congr fun id _ => ?_
  rw [decide_eq_true_eq, h id]
  simp

/-- The first position that is ready is that of the first waiting operator whose producers are all
placed. -/
theorem Keeps.find?_waiting {job : Job} {done : List Nat} {s : Countdown} (h : Keeps job done s)
    {placed : List OpId} (hplaced : Names job done placed) {w : Nat × Operator}
    (hw : w ∈ waiting job done) {rest : List Nat} (hready : s.ready = w.1 :: rest) :
    (waiting job done).find? (fun w => isReady placed w.2) = some w := by
  have hascending : (waiting job done).Pairwise fun v w => v.1 < w.1 := by
    have hall : job.indexed.Pairwise fun v w => v.1 < w.1 := by
      rw [← List.pairwise_map, map_fst_indexed]
      exact List.pairwise_lt_range
    exact hall.filter _
  obtain ⟨before, after, hsplit⟩ := List.append_of_mem hw
  obtain ⟨hop, hdone⟩ := mem_waiting_iff.1 hw
  refine List.find?_eq_some_iff_append.2 ⟨?_, before, after, hsplit, ?_⟩
  · exact (hplaced.isReady_iff w.2).2
      ((h.mem_ready w.1 w.2 hop).1 (hready ▸ List.mem_cons_self)).2
  · intro v hv
    rw [hsplit, List.pairwise_append] at hascending
    have hlt : v.1 < w.1 := hascending.2.2 v hv w List.mem_cons_self
    obtain ⟨hvop, hvdone⟩ := mem_waiting_iff.1 (hsplit ▸ List.mem_append_left _ hv)
    -- Otherwise the earlier operator would be ready before the first that is ready.
    by_contra hnot
    have hmem : v.1 ∈ s.ready := (h.mem_ready v.1 v.2 hvop).2
      ⟨hvdone, (hplaced.isReady_iff v.2).1 (by simpa using hnot)⟩
    obtain ⟨hfirst, -⟩ := List.pairwise_cons.1 (hready ▸ h.ascending)
    rw [hready] at hmem
    rcases List.mem_cons.1 hmem with heq | hmem
    · exact absurd heq (Nat.ne_of_lt hlt)
    · exact absurd (hfirst v.1 hmem) (Nat.lt_asymm hlt)

/-- Placing one more operator puts its id among those placed. -/
theorem Names.cons {job : Job} (hnodup : (job.operators.map (·.id)).Nodup) {done : List Nat}
    {placed : List OpId} (h : Names job done placed) {i : Nat} {op : Operator}
    (hop : job.operators[i]? = some op) : Names job (i :: done) (op.id :: placed) := by
  intro id
  rw [List.mem_cons, h id, ← position?_eq hnodup hop]
  simp

/-- The countdown places, round by round, the first waiting operator whose producers are placed. -/
theorem Keeps.orderWithin_eq {job : Job} (hnodup : (job.operators.map (·.id)).Nodup) :
    ∀ {rounds : Nat} {done : List Nat} {s : Countdown} {placed : List OpId} {positions : List Nat},
      Keeps job done s → Names job done placed → (waiting job done).length ≤ rounds →
        run job rounds s = some positions → orderWithin rounds placed (waiting job done) =
          if positions.length = (waiting job done).length then some positions else none
  | 0, done, s, placed, positions, h, _, hlen, hrun => by
    have hnil : waiting job done = [] := List.eq_nil_of_length_eq_zero (Nat.le_zero.1 hlen)
    rw [run] at hrun
    split at hrun
    · obtain rfl := Option.some.inj hrun
      rw [hnil]
      rfl
    · simp at hrun
  | rounds + 1, done, s, placed, positions, h, hplaced, hlen, hrun => by
    unfold run at hrun
    unfold orderWithin
    cases hready : s.ready with
    | nil =>
      rw [hready] at hrun
      obtain rfl := Option.some.inj hrun
      have hnone : (waiting job done).find? (fun w => isReady placed w.2) = none := by
        rw [List.find?_eq_none]
        intro w hw hisReady
        obtain ⟨hop, hdone⟩ := mem_waiting_iff.1 hw
        have hmem := (h.mem_ready w.1 w.2 hop).2 ⟨hdone, (hplaced.isReady_iff w.2).1 hisReady⟩
        rw [hready] at hmem
        simp at hmem
      rw [hnone]
      cases waiting job done <;> simp
    | cons next rest =>
      obtain ⟨op, hw, -⟩ := h.exists_waiting (hready ▸ List.mem_cons_self)
      obtain ⟨s', hlower, hs'⟩ := h.place hready
      have hlength := length_waiting_cons hw
      rw [h.find?_waiting hplaced hw hready]
      rw [hready] at hrun
      dsimp only at hrun ⊢
      rw [hlower] at hrun
      obtain ⟨_, hsome, hrun⟩ := Option.bind_eq_some_iff.1 hrun
      obtain rfl := Option.some.inj hsome
      obtain ⟨more, hmore, hcons⟩ := Option.bind_eq_some_iff.1 hrun
      obtain rfl := Option.some.inj hcons
      rw [← waiting_cons, hs'.orderWithin_eq hnodup (hplaced.cons hnodup (mem_waiting_iff.1 hw).1)
        (Nat.le_of_succ_le_succ (Nat.le_trans (Nat.le_of_eq hlength) hlen)) hmore, ← hlength,
        List.length_cons]
      by_cases hall : more.length = (waiting job (next :: done)).length <;> simp [hall]

end Countdown

/-- In a job whose ids differ, the countdown places all operators exactly if always one of those
that wait has its producers placed, and then it takes the first such operator in every round. -/
theorem orderWithin_eq_countdown {job : Job} (hnodup : (job.operators.map (·.id)).Nodup)
    {positions : List Nat} (h : job.countdown = some positions) :
    orderWithin job.size [] job.indexed =
      if positions.length = job.size then some positions else none := by
  have hwaiting : Countdown.waiting job [] = job.indexed := by
    simp [Countdown.waiting]
  have hlen : job.indexed.length = job.size := by
    simp [indexed, size]
  have hnames : Countdown.Names job [] [] := by
    intro id
    simp
  have hspec := (Countdown.keeps_start job).orderWithin_eq hnodup hnames
    (Nat.le_of_eq (by rw [hwaiting, hlen])) h
  rw [hwaiting, hlen] at hspec
  exact hspec

end Job

end FlowPlanner
