/-
FlowPlanner.Proofs.Search.Limits — what a limit can do to a search.

A limit never keeps a node from its first candidate, so a run fails at a node
only if the candidates kept for its producers all disagree, two by two, on some
fork (`run_ok_iff_producers_agree`). Without limits this cannot happen; with one
it can. A fork keeps its candidates in the order in which pruning left them, and
after the limit each of its readers goes on with the first candidate that fits:
readers that were enumerated before and after may be left with different ones
(`crossedBranches`).
-/
import FlowPlanner.Proofs.Search.Feasibility

namespace FlowPlanner

variable {α : Type}

namespace Problem

variable [Quantity α] {p : Problem α}

/-- Where nothing forks, nothing is chosen. -/
theorem Family.of_no_fork (hp : p.Prepared) {st : Stage α} (hst : p.Reachable st)
    (hforks : ∀ n, p.graph.isFork n = false) : p.Family st fun _ => none := by
  have hcons := hst.consistent hp.wellFormed
  refine ⟨by simp, ?_⟩
  intro n hn
  obtain ⟨q, hq⟩ := List.exists_mem_of_ne_nil _ (hcons.kept_ne_nil n hn)
  refine ⟨q, hq, ?_⟩
  intro fork x hx
  obtain ⟨-, -, -, -, hfork⟩ := (hst.catalogue hp.wellFormed).exists_uses_of_find?_choices
    hp.wellFormed (hcons.kept_made n q hq).1 hx
  rw [hforks fork] at hfork
  simp at hfork

end Problem

/-- Whatever the limits are, a run of a job that was laid out succeeds, and then ranks a plan, if
and only if at every node, when its turn comes, some of the plans kept for its producers agree on
all forks. This is so if no limit was reached, and if nothing forks. -/
theorem run_ok_iff_producers_agree [Quantity α] {o : Optimizer α} {job : Job} {p : Problem α}
    (h : o.prepare job = .ok p) (clock : Nat → Nat) :
    ((∃ out, o.run job clock = .ok out ∧ out.ranked ≠ []) ↔
      ∀ st n, { p with clock }.Reachable st → n :: st.done <:+ p.graph.schedule →
        ∃ producers, p.Selects st.kept n producers ∧ Problem.Compatible producers) ∧
      (({ p with clock }.candidates p.graph.root {}).2.exhausted = false →
        ∃ out, o.run job clock = .ok out ∧ out.ranked ≠ []) ∧
      ((∀ n, p.graph.isFork n = false) →
        ∃ out, o.run job clock = .ok out ∧ out.ranked ≠ []) := by
  have hp := (o.prepared h).withClock clock
  have hranked : (∃ out, o.run job clock = .ok out ∧ out.ranked ≠ []) ↔
      ∃ plans s, { p with clock }.candidates p.graph.root {} = (.ok plans, s) := by
    rw [← o.run_ok_iff h]
    constructor
    · rintro ⟨out, hrun, -⟩
      exact ⟨out, hrun⟩
    · rintro ⟨out, hrun⟩
      exact ⟨out, hrun, o.ranked_ne_nil h hrun⟩
  rw [hranked]
  refine ⟨⟨?_, ?_⟩, ?_, ?_⟩
  · rintro ⟨plans, s, hcand⟩ st n hst hn
    obtain ⟨last, hv, -, -⟩ := (Problem.candidates_root hp.wellFormed).ok plans s hcand
    have hlast : { p with clock }.Reachable last := hv.steps
    obtain ⟨st₀, kept, s₀, hst₀, hdone, hdue, hs, -⟩ :=
      hlast.exists_before (by rw [hv.done_eq]; exact hn)
    obtain rfl := hst.eq_of_done_eq hst₀ hdone
    by_contra hnone
    have hfound := (Problem.settle_ok hs).found
    rw [(Problem.found_isEmpty_iff hp hst hdue.lt_size).2] at hfound
    · simp at hfound
    · intro producers hselects hcompatible
      exact hnone ⟨producers, hselects, hcompatible⟩
  · intro hagree
    rcases { p with clock }.candidates_ok_or_fails hp.wellFormed with h | ⟨st, n, e, s, -, hfails, horder⟩
    · exact h
    · obtain ⟨producers, hselects, hcompatible⟩ := hagree st n hfails.reachable horder
      exact absurd hcompatible (hfails.not_compatible hp hselects)
  · exact Problem.exists_candidates hp
  · intro hforks
    rcases { p with clock }.candidates_ok_or_fails hp.wellFormed with h | ⟨st, n, e, s, -, hfails, -⟩
    · exact h
    · exact absurd (Problem.Family.of_no_fork hp hfails.reachable hforks)
        (hfails.not_family hp _)

/-- Two sources, the second hashed on column 0. Its map is a fork: one branch joins it to the first
source, both end in a sink. -/
def crossedBranches : Job where
  operators :=
    [{ id := 1, name := "sx"
       kind := .source { statistics := { records := some 1, bytes := some 1000 }
                         partitionedOn := some [1] } },
     { id := 2, name := "sf"
       kind := .source { statistics := { records := some 1, bytes := some 1000 }
                         partitionedOn := some [0] } },
     { id := 3, name := "f", kind := .map, inputs := [[2]], keys := [[0, 1]]
       contract := .sameKey },
     { id := 4, name := "p", kind := .coGroup, inputs := [[1], [3]], keys := [[0, 1], [0, 1]]
       contract := .sameKeyFirst },
     { id := 5, name := "r0", kind := .reduce, inputs := [[4]], keys := [[0]] },
     { id := 6, name := "r1", kind := .reduce, inputs := [[3]], keys := [[1]] },
     { id := 7, name := "out0", kind := .sink, inputs := [[5]] },
     { id := 8, name := "out1", kind := .sink, inputs := [[6]] }]

/-- The optimizer with an upper limit on candidates, which the check of the settings never reads. -/
def Optimizer.withBudget (o : Optimizer α) (budget : Nat) : Optimizer α :=
  { o with config := { o.config with budget := some budget }, valid := o.valid }

theorem not_exists_run_crossedBranches :
    ¬ ∃ out, (Optimizer.ofDefaults.withBudget 14).run crossedBranches = .ok out := by
  rintro ⟨out, hrun⟩
  have hfails : ((Optimizer.ofDefaults.withBudget 14).run crossedBranches).isOk = false := by
    decide +kernel
  rw [hrun] at hfails
  simp [Except.isOk, Except.toBool] at hfails

/-- With at most fourteen candidates some node of the job is left with producers that disagree. -/
theorem producers_disagree_crossedBranches :
    ∃ p, (Optimizer.ofDefaults.withBudget 14).prepare crossedBranches = .ok p ∧
      ∃ st n, p.Reachable st ∧ n :: st.done <:+ p.graph.schedule ∧
        ∀ producers, p.Selects st.kept n producers → ¬ Problem.Compatible producers := by
  obtain ⟨p, hprepare⟩ := exists_ok_of_isOk
    (r := (Optimizer.ofDefaults.withBudget 14).prepare crossedBranches) (by decide +kernel)
  refine ⟨p, hprepare, ?_⟩
  by_contra hnone
  push Not at hnone
  have hiff := (run_ok_iff_producers_agree hprepare fun _ => 0).1
  rw [Optimizer.withClock_eq hprepare] at hiff
  obtain ⟨out, hrun, -⟩ := hiff.2 hnone
  exact not_exists_run_crossedBranches ⟨out, hrun⟩

/-- The job is planned without a limit, but not with at most fourteen candidates. -/
theorem budget_strands_crossedBranches :
    (∃ out, Optimizer.ofDefaults.run crossedBranches = .ok out) ∧
      ¬ ∃ out, (Optimizer.ofDefaults.withBudget 14).run crossedBranches = .ok out := by
  refine ⟨?_, not_exists_run_crossedBranches⟩
  obtain ⟨p, hprepare⟩ := exists_ok_of_isOk (r := Optimizer.ofDefaults.prepare crossedBranches)
    (by decide +kernel)
  exact Optimizer.exists_run hprepare rfl rfl _

end FlowPlanner
