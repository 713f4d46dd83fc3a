/-
FlowPlanner.Proofs.Search.Lockstep — a budget that is not used up.

A search under a budget and the same search without one go through the same states
until the budget is found used up, and by then the search without one has made as
many plans as the budget allows (`Lockstep`). From a common state every part of the
search keeps this up; once the two are apart they stay so, since a search only grows
(`Lockstep.step`).
-/
import FlowPlanner.Description
import FlowPlanner.Proofs.Search.Budget
import FlowPlanner.Proofs.Search.Renumber

namespace FlowPlanner

variable {α : Type}

namespace Problem

/-! ## §1 The parts of a search only add to it -/

/-- Go on with a result, unless there is none. -/
def andThen {β γ : Type} (r : Except Failure β × Search α)
    (goOn : β → Search α → Except Failure γ × Search α) : Except Failure γ × Search α :=
  match r with
  | (.error e, s) => (.error e, s)
  | (.ok x, s) => goOn x s

theorem andThen_grows {β γ : Type} {s : Search α} {r : Except Failure β × Search α}
    {goOn : β → Search α → Except Failure γ × Search α} (hr : s.Grows r.2)
    (hgoOn : ∀ x (s : Search α), s.Grows (goOn x s).2) : s.Grows (andThen r goOn).2 := by
  obtain ⟨e | x, s₁⟩ := r
  · exact hr
  · exact hr.trans (hgoOn x s₁)

theorem feed_cons (p : Problem α)
    (candidatesOf : NodeId → Search α → Except Failure (List (Plan α)) × Search α)
    (c : Connection) (cs : List Connection) (s : Search α) :
    p.feed candidatesOf (c :: cs) s =
      andThen (candidatesOf c.source s) fun producers s =>
        andThen (p.feed candidatesOf cs s)
          fun rest s => (.ok (p.channels c producers :: rest), s) := by
  rw [feed]
  unfold andThen
  rcases candidatesOf c.source s with ⟨e | producers, s₁⟩
  · rfl
  · dsimp only
    rcases p.feed candidatesOf cs s₁ with ⟨e | rest, s₂⟩ <;> rfl

variable [Quantity α] {p : Problem α} {node : Node}

theorem candidatesWithin_succ (p : Problem α) (depth : Nat) (n : NodeId) (s : Search α) :
    p.candidatesWithin (depth + 1) n s = match s.forks.find? n with
      | some plans => (.ok plans, s)
      | none => andThen (p.feed (p.candidatesWithin depth) (p.graph.node n).inputs s)
          fun inputs s => p.settle (p.graph.node n) inputs s := by
  rw [candidatesWithin]
  unfold andThen
  cases s.forks.find? n with
  | some plans => rfl
  | none =>
    dsimp only
    rcases p.feed (p.candidatesWithin depth) (p.graph.node n).inputs s with
      ⟨e | inputs, s₁⟩ <;> rfl

omit [Quantity α] in
theorem feed_grows (p : Problem α)
    {candidatesOf : NodeId → Search α → Except Failure (List (Plan α)) × Search α}
    (h : ∀ n (s : Search α), s.Grows (candidatesOf n s).2) :
    ∀ (cs : List Connection) (s : Search α), s.Grows (p.feed candidatesOf cs s).2
  | [], s => .refl s
  | c :: cs, s => by
    rw [feed_cons]
    refine andThen_grows (h c.source s) fun producers s => ?_
    exact andThen_grows (p.feed_grows h cs s) fun _ s => .refl s

theorem candidatesWithin_grows (p : Problem α) : ∀ (depth : Nat) (n : NodeId) (s : Search α),
    s.Grows (p.candidatesWithin depth n s).2
  | 0, _, s => .refl s
  | depth + 1, n, s => by
    rw [candidatesWithin_succ]
    split
    · exact .refl s
    · exact andThen_grows (p.feed_grows (p.candidatesWithin_grows depth) _ s)
        fun inputs s => p.settle_grows _ inputs s

end Problem

/-! ## §2 Two searches in lockstep -/

/-- Of two searches the first one has a budget: they got to the same and no limit was found reached,
or the first one found one reached and the second one has made as many plans as the budget allows. -/
inductive Lockstep (b : Nat) {β : Type} (search : β → Search α) : β → β → Prop
  | same {x : β} (h : (search x).exhausted = false) : Lockstep b search x x
  | apart {x y : β} (hx : (search x).exhausted = true) (hy : b ≤ (search y).made.size) :
      Lockstep b search x y

namespace Lockstep

variable {b : Nat} {β γ : Type} {search : β → Search α} {search' : γ → Search α} {x y : β}

/-- What keeps two searches in lockstep from a common state does so from any, if it only grows. -/
theorem step (F F' : β → γ) (h : Lockstep b search x y)
    (hsame : ∀ x, (search x).exhausted = false → Lockstep b search' (F x) (F' x))
    (hF : (search x).Grows (search' (F x))) (hF' : (search y).Grows (search' (F' y))) :
    Lockstep b search' (F x) (F' y) := by
  cases h with
  | same h => exact hsame x h
  | apart hx hy => exact .apart (hF.exhausted hx) (Nat.le_trans hy hF'.made)

theorem foldl {δ : Type} {F F' : β → δ → β}
    (hsame : ∀ x d, (search x).exhausted = false → Lockstep b search (F x d) (F' x d))
    (hF : ∀ x d, (search x).Grows (search (F x d)))
    (hF' : ∀ x d, (search x).Grows (search (F' x d))) :
    ∀ (ds : List δ) {x y : β}, Lockstep b search x y →
      Lockstep b search (ds.foldl F x) (ds.foldl F' y)
  | [], _, _, h => h
  | d :: ds, x, y, h =>
    foldl hsame hF hF' ds
      (h.step (F · d) (F' · d) (fun x hx => hsame x d hx) (hF x d) (hF' y d))

theorem eq_of_exhausted (h : Lockstep b search x y) (hx : (search x).exhausted = false) :
    x = y := by
  cases h with
  | same _ => rfl
  | apart hex _ => simp [hex] at hx

theorem exhausted_eq_false (h : Lockstep b search x y) (hy : (search y).made.size < b) :
    (search x).exhausted = false := by
  cases h with
  | same h => exact h
  | apart _ hle => exact absurd hy (Nat.not_lt_of_le hle)

end Lockstep

namespace Problem

/-! ## §3 A search under a budget and the same one without -/

/-- Other settings are those of the problem, which have no limits, but for a budget. -/
structure AddsBudget (p : Problem α) (c : Config) (b : Nat) : Prop where
  prune_eq : c.prune = p.config.prune
  budget_eq : p.config.budget = none
  deadline_eq : p.config.deadlineMs = none
  budget_eq' : c.budget = some b
  deadline_eq' : c.deadlineMs = none

variable {p : Problem α} {c : Config} {b : Nat} {clock : Nat → Nat}

/-- A look that finds no limit reached changes nothing. -/
theorem look_eq_self {f : Found α} (hf : f.search.exhausted = false)
    (h : f.plans.isEmpty = true ∨ (p.look f).search.exhausted = false) : p.look f = f := by
  cases hplans : f.plans.isEmpty with
  | true =>
    unfold look
    rw [if_pos hplans]
  | false =>
    have hnot : p.isExhausted f.search = false := by
      simpa [look, hplans, checkLimits] using h
    unfold look checkLimits
    rw [if_neg (by simp [hplans]), hnot, ← hf]

/-- A look finds a limit reached only if the budget is used up. -/
theorem AddsBudget.le_of_exhausted_look (h : p.AddsBudget c b) {f : Found α}
    (hf : f.search.exhausted = false) (hplans : f.plans.isEmpty = false)
    (hex : ((p.rerun c clock).look f).search.exhausted = true) : b ≤ f.search.made.size := by
  have hlimit : (p.rerun c clock).isExhausted f.search = true := by
    simpa [look, hplans, checkLimits] using hex
  simpa [isExhausted, rerun, hf, h.budget_eq', h.deadline_eq'] using hlimit

variable [Quantity α] {node : Node}

theorem AddsBudget.tryChannel (h : p.AddsBudget c b) {rest : List (List (Channel (Plan α)))}
    {chosen : List (Channel (Plan α))} {choices : Choices} {f : Found α}
    (hf : f.search.exhausted = false) (ch : Channel (Plan α))
    (hcombine : ∀ merged, Lockstep b Found.search
      ((p.rerun c clock).combine node rest (chosen ++ [ch]) merged f)
      (p.combine node rest (chosen ++ [ch]) merged f)) :
    Lockstep b Found.search ((p.rerun c clock).tryChannel node rest chosen choices f ch)
      (p.tryChannel node rest chosen choices f ch) := by
  have hfree : p.tryChannel node rest chosen choices f ch = _ :=
    tryChannel_of_unlimited h.budget_eq h.deadline_eq hf ch
  rcases (p.rerun c clock).tryChannel_cases node rest chosen choices f ch with
    ⟨hplans, hex, htry⟩ | ⟨hgo, ⟨hnone, htry⟩ | ⟨merged, hmerged, htry⟩⟩
  · rw [htry]
    -- The two part here: the search without a budget has made the same plans so far, and goes on.
    exact .apart hex (Nat.le_trans (h.le_of_exhausted_look hf hplans hex)
      (p.search_tryChannel_grows node rest chosen choices f ch).made)
  · rw [htry, look_eq_self hf hgo, hfree, hnone]
    exact .same hf
  · rw [htry, look_eq_self hf hgo, hfree, hmerged]
    exact hcombine merged

theorem exhausted_foldl_make (choices : Choices) (alts : List (Alternative α)) (f : Found α) :
    (alts.foldl (p.make node choices) f).search.exhausted = f.search.exhausted :=
  List.foldlRecOn (motive := fun g : Found α => g.search.exhausted = f.search.exhausted) _ _ rfl
    fun _ hg _ _ => hg

theorem AddsBudget.combine (h : p.AddsBudget c b) :
    ∀ (rest : List (List (Channel (Plan α)))) (chosen : List (Channel (Plan α)))
      (choices : Choices) {f : Found α}, f.search.exhausted = false →
        Lockstep b Found.search ((p.rerun c clock).combine node rest chosen choices f)
          (p.combine node rest chosen choices f)
  | [], chosen, choices, f, hf =>
    .same ((exhausted_foldl_make (p := p) choices (p.alternatives node chosen) f).trans hf)
  | channels :: rest, chosen, choices, f, hf => by
    rw [combine_cons, combine_cons]
    refine Lockstep.foldl ?_ ?_ ?_ channels (.same hf)
    · intro f ch hf
      exact h.tryChannel hf ch fun merged => h.combine rest (chosen ++ [ch]) merged hf
    · exact fun f ch => (p.rerun c clock).search_tryChannel_grows node rest chosen choices f ch
    · exact fun f ch => p.search_tryChannel_grows node rest chosen choices f ch

theorem AddsBudget.finish (h : p.AddsBudget c b) {f : Found α} (hf : f.search.exhausted = false) :
    Lockstep b Prod.snd ((p.rerun c clock).finish node f) (p.finish node f) := by
  have hsurvivors : (p.rerun c clock).survivors node f.plans = p.survivors node f.plans := by
    unfold survivors
    rw [show (p.rerun c clock).config.prune = p.config.prune from h.prune_eq]
    rfl
  have heq : (p.rerun c clock).finish node f = p.finish node f := by
    unfold Problem.finish
    rw [hsurvivors]
    rfl
  rw [heq]
  refine .same ?_
  unfold Problem.finish
  split <;> exact hf

theorem AddsBudget.settle (h : p.AddsBudget c b) (inputs : List (List (Channel (Plan α))))
    {s : Search α} (hs : s.exhausted = false) :
    Lockstep b Prod.snd ((p.rerun c clock).settle node inputs s) (p.settle node inputs s) := by
  rw [settle_eq_finish, settle_eq_finish]
  exact (h.combine inputs [] Table.empty hs).step ((p.rerun c clock).finish node) (p.finish node)
    (fun f hf => h.finish hf) ((p.rerun c clock).finish_grows node _) (p.finish_grows node _)

omit [Quantity α] in
theorem Lockstep.andThen {β γ : Type} {r r' : Except Failure β × Search α}
    {goOn goOn' : β → Search α → Except Failure γ × Search α} (h : Lockstep b Prod.snd r r')
    (hsame : ∀ x (s : Search α), s.exhausted = false →
      Lockstep b Prod.snd (goOn x s) (goOn' x s))
    (hgoOn : ∀ x (s : Search α), s.Grows (goOn x s).2)
    (hgoOn' : ∀ x (s : Search α), s.Grows (goOn' x s).2) :
    Lockstep b Prod.snd (Problem.andThen r goOn) (Problem.andThen r' goOn') := by
  refine h.step (Problem.andThen · goOn) (Problem.andThen · goOn') ?_
    (andThen_grows (.refl _) hgoOn) (andThen_grows (.refl _) hgoOn')
  rintro ⟨e | x, s⟩ hs
  · exact .same hs
  · exact hsame x s hs

omit [Quantity α] in
theorem feed_lockstep
    {candidatesOf candidatesOf' : NodeId → Search α → Except Failure (List (Plan α)) × Search α}
    (hsame : ∀ n (s : Search α), s.exhausted = false →
      Lockstep b Prod.snd (candidatesOf n s) (candidatesOf' n s))
    (hgrows : ∀ n (s : Search α), s.Grows (candidatesOf n s).2)
    (hgrows' : ∀ n (s : Search α), s.Grows (candidatesOf' n s).2) :
    ∀ (cs : List Connection) {s : Search α}, s.exhausted = false →
      Lockstep b Prod.snd ((p.rerun c clock).feed candidatesOf cs s) (p.feed candidatesOf' cs s)
  | [], s, hs => .same hs
  | d :: cs, s, hs => by
    rw [feed_cons, feed_cons]
    refine Lockstep.andThen (hsame d.source s hs) ?_ ?_ ?_
    · intro producers s hs
      exact Lockstep.andThen (feed_lockstep hsame hgrows hgrows' cs hs) (fun _ _ hs => .same hs)
        (fun _ s => .refl s) (fun _ s => .refl s)
    · exact fun _ s => andThen_grows ((p.rerun c clock).feed_grows hgrows cs s) fun _ s => .refl s
    · exact fun _ s => andThen_grows (p.feed_grows hgrows' cs s) fun _ s => .refl s

theorem AddsBudget.candidatesWithin (h : p.AddsBudget c b) : ∀ (depth : Nat) (n : NodeId)
    {s : Search α}, s.exhausted = false →
      Lockstep b Prod.snd ((p.rerun c clock).candidatesWithin depth n s)
        (p.candidatesWithin depth n s)
  | 0, _, _, hs => .same hs
  | depth + 1, n, s, hs => by
    rw [candidatesWithin_succ, candidatesWithin_succ]
    -- Both start from one state, so they remember the same forks.
    cases s.forks.find? n with
    | some plans => exact .same hs
    | none =>
      refine Lockstep.andThen (feed_lockstep (fun n s hs => h.candidatesWithin depth n hs)
        ((p.rerun c clock).candidatesWithin_grows depth) (p.candidatesWithin_grows depth) _ hs)
        ?_ ?_ ?_
      · exact fun inputs s hs => h.settle inputs hs
      · exact fun inputs s => (p.rerun c clock).settle_grows _ inputs s
      · exact fun inputs s => p.settle_grows _ inputs s

/-- A search under a budget goes as without one, or the search without one uses the budget up. -/
theorem AddsBudget.candidates (h : p.AddsBudget c b) :
    Lockstep b Prod.snd ((p.rerun c clock).candidates p.graph.root {})
      (p.candidates p.graph.root {}) :=
  h.candidatesWithin p.graph.size p.graph.root rfl

end Problem

/-! ## §4 Runs under a budget -/

/-- Two runs found the same: the same plans were made, counted, kept for the root and ranked, and
the best one is described alike. -/
structure Outcome.SameFindings [Quantity α] (out out' : Outcome α) : Prop where
  search : out.search = out'.search
  rootPlans : out.problem.rootPlans = out'.problem.rootPlans
  best : out.best = out'.best
  ranked : out.ranked = out'.ranked
  description : out.description = out'.description

theorem Outcome.SameFindings.symm [Quantity α] {out out' : Outcome α} (h : out.SameFindings out') :
    out'.SameFindings out :=
  ⟨h.search.symm, h.rootPlans.symm, h.best.symm, h.ranked.symm, h.description.symm⟩

/-- A run that searches like another one finds the same. -/
theorem Optimizer.exists_sameFindings [Quantity α] {o : Optimizer α} {job : Job} {p : Problem α}
    (h : o.prepare job = .ok p) {prune : Bool} {budget budget' : Option Nat}
    {clock clock' : Nat → Nat}
    (hcand : (p.rerun (o.withLimits prune budget none).config clock).candidates p.graph.root {} =
      (p.rerun (o.withLimits prune budget' none).config clock').candidates p.graph.root {})
    {out : Outcome α} (hrun : (o.withLimits prune budget none).run job clock = .ok out) :
    ∃ out', (o.withLimits prune budget' none).run job clock' = .ok out' ∧
      out.SameFindings out' := by
  obtain ⟨plans, s, first, rest, hplans, hrank, rfl⟩ :=
    Optimizer.run_ok (Optimizer.prepare_withLimits h prune budget none) hrun
  have hplans' := hcand.symm.trans hplans
  obtain ⟨first', rest', hrank', hrun'⟩ :=
    Optimizer.run_of_candidates_ok (Optimizer.prepare_withLimits h prune budget' none) hplans'
  obtain ⟨rfl, rfl⟩ := List.cons.inj (hrank.symm.trans hrank')
  refine ⟨_, hrun', rfl, ?_, rfl, rfl, rfl⟩
  exact (Problem.rootPlans_eq hplans).trans (Problem.rootPlans_eq hplans').symm

/-- Without a deadline, whether a search prunes or not and on any clocks: if it finds that its budget
is not used up, it ends as without a budget, well or not, and so a run finds the same as without a
budget. And the budget is not used up if it is greater than the number of plans that are made without
one. -/
theorem unreached_budget_changes_nothing [Quantity α] (o : Optimizer α) {job : Job} {p : Problem α}
    (h : o.prepare job = .ok p) (prune : Bool) (b : Nat) : ∃ limited free,
    (o.withLimits prune (some b) none).prepare job = .ok limited ∧
      (o.withLimits prune none none).prepare job = .ok free ∧
      (∀ clock clock',
        ({ limited with clock }.candidates limited.graph.root {}).2.exhausted = false →
          { limited with clock }.candidates limited.graph.root {} =
            { free with clock := clock' }.candidates free.graph.root {}) ∧
      (∀ clock clock',
        ({ free with clock := clock' }.candidates free.graph.root {}).2.made.size < b →
          ({ limited with clock }.candidates limited.graph.root {}).2.exhausted = false) ∧
      (∀ clock clock' out, (o.withLimits prune (some b) none).run job clock = .ok out →
        out.search.exhausted = false →
          ∃ out', (o.withLimits prune none none).run job clock' = .ok out' ∧
            out.SameFindings out') ∧
      ∀ clock clock' out', (o.withLimits prune none none).run job clock' = .ok out' →
        out'.search.made.size < b →
          ∃ out, (o.withLimits prune (some b) none).run job clock = .ok out ∧
            out.search.exhausted = false ∧ out.SameFindings out' := by
  have hlimited := Optimizer.prepare_withLimits h prune (some b) none
  have hfree := Optimizer.prepare_withLimits h prune none none
  have hlockstep : ∀ clock clock', Lockstep b Prod.snd
      ((p.rerun (o.withLimits prune (some b) none).config clock).candidates p.graph.root {})
      ((p.rerun (o.withLimits prune none none).config clock').candidates p.graph.root {}) := by
    intro clock clock'
    have hadds : (p.rerun (o.withLimits prune none none).config clock').AddsBudget
        (o.withLimits prune (some b) none).config b := ⟨rfl, rfl, rfl, rfl, rfl⟩
    exact hadds.candidates
  refine ⟨_, _, hlimited, hfree, ?_, ?_, ?_, ?_⟩
  · exact fun clock clock' => (hlockstep clock clock').eq_of_exhausted
  · exact fun clock clock' => (hlockstep clock clock').exhausted_eq_false
  · intro clock clock' out hrun hex
    obtain ⟨plans, s, first, rest, hcand, -, rfl⟩ := Optimizer.run_ok hlimited hrun
    refine Optimizer.exists_sameFindings h ((hlockstep _ _).eq_of_exhausted ?_) hrun
    exact (congrArg (·.2.exhausted) hcand).trans hex
  · intro clock clock' out' hrun' hlt
    obtain ⟨plans, s, first, rest, hcand, -, rfl⟩ := Optimizer.run_ok hfree hrun'
    have hex := (hlockstep clock clock').exhausted_eq_false
      (Nat.lt_of_le_of_lt (Nat.le_of_eq (congrArg (·.2.made.size) hcand)) hlt)
    have heq := (hlockstep clock clock').eq_of_exhausted hex
    obtain ⟨out, hrun, hsame⟩ := Optimizer.exists_sameFindings h heq.symm hrun'
    refine ⟨out, hrun, ?_, hsame.symm⟩
    rw [← hsame.search]
    exact (congrArg (·.2.exhausted) (heq.trans hcand)).symm.trans hex

/-- The join is planned with 48 plans, of which 44 are dropped; a budget of 49 changes nothing. -/
theorem unreached_budget_changes_nothing_plainJoin : ∃ out out',
    (Optimizer.ofUnitWeights.withLimits true (some 49) none).run plainJoin = .ok out ∧
      (Optimizer.ofUnitWeights.withLimits true none none).run plainJoin = .ok out' ∧
      out'.search.made.size = 48 ∧ out'.search.pruned = 44 ∧ out.search.exhausted = false ∧
        out.SameFindings out' := by
  obtain ⟨p, hprepare⟩ := exists_ok_of_isOk (r := Optimizer.ofUnitWeights.prepare plainJoin)
    (by decide +kernel)
  obtain ⟨out', hrun', hcheck⟩ := exists_ok_of_any
    (r := (Optimizer.ofUnitWeights.withLimits true none none).run plainJoin)
    (f := fun out => out.search.made.size == 48 && out.search.pruned == 44) (by decide +kernel)
  rw [Bool.and_eq_true, beq_iff_eq, beq_iff_eq] at hcheck
  obtain ⟨hsize, hpruned⟩ := hcheck
  obtain ⟨limited, free, -, -, -, -, -, hunreached⟩ :=
    unreached_budget_changes_nothing Optimizer.ofUnitWeights hprepare true 49
  obtain ⟨out, hrun, hex, hsame⟩ := hunreached _ _ out' hrun' (by omega)
  exact ⟨out, out', hrun, hrun', hsize, hpruned, hex, hsame⟩

end FlowPlanner
