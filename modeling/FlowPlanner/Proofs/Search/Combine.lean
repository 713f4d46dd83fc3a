/-
FlowPlanner.Proofs.Search.Combine — which combinations of channels become candidates.

A combination picks one channel per input (`Picks`) and fits together when the
choices of its channels can be merged (`Channel.mergeChoices?`). Whatever holds
of all candidates is proved by `combine_induct`; that a combination is not
missed is `exists_of_combine` as long as no limit is reached, and
`combine_isEmpty_iff` whatever the limits are: a limit never stops the search
for the first candidate.
-/
import FlowPlanner.Search
import Mathlib.Data.List.Induction
import Mathlib.Data.List.Forall2

namespace FlowPlanner

variable {α : Type}

/-! ## §1 Choices of a combination -/

/-- One channel per input. -/
def Picks (t : List (Channel (Plan α))) (inputs : List (List (Channel (Plan α)))) : Prop :=
  List.Forall₂ (fun c cs => c ∈ cs) t inputs

namespace Channel

/-- The choices of some channels put together with earlier ones, unless they disagree. -/
def mergeChoices? (choices : Choices) (t : List (Channel (Plan α))) : Option Choices :=
  t.foldlM (fun m c => Choices.merge? m c.choices) choices

theorem mergeChoices?_cons_eq (a : Choices) (c : Channel (Plan α)) (t : List (Channel (Plan α))) :
    mergeChoices? a (c :: t) = (Choices.merge? a c.choices).bind (mergeChoices? · t) := rfl

theorem mergeChoices?_cons {a m : Choices} {c : Channel (Plan α)} {t : List (Channel (Plan α))} :
    mergeChoices? a (c :: t) = some m ↔
      ∃ b, Choices.merge? a c.choices = some b ∧ mergeChoices? b t = some m := by
  rw [mergeChoices?_cons_eq]
  exact Option.bind_eq_some_iff

/-- Merged choices are those of the parts. -/
theorem find?_mergeChoices? : ∀ {t : List (Channel (Plan α))} {a m : Choices},
    mergeChoices? a t = some m → ∀ {k x},
      m.find? k = some x ↔ a.find? k = some x ∨ ∃ c ∈ t, c.choices.find? k = some x
  | [], a, m, h, k, x => by
    obtain rfl : a = m := by simpa [mergeChoices?] using h
    simp
  | c :: t, a, m, h, k, x => by
    obtain ⟨b, hb, hm⟩ := mergeChoices?_cons.1 h
    rw [find?_mergeChoices? hm, Choices.find?_merge? hb]
    simp [or_assoc]

/-- Channels that agree with each other and with the earlier choices can be merged. -/
theorem exists_mergeChoices? : ∀ {t : List (Channel (Plan α))} {a : Choices},
    (∀ c ∈ t, Choices.Agree a c.choices) →
      t.Pairwise (fun c d => Choices.Agree c.choices d.choices) → ∃ m, mergeChoices? a t = some m
  | [], a, _, _ => ⟨a, rfl⟩
  | c :: t, a, ha, ht => by
    obtain ⟨hc, ht⟩ := List.pairwise_cons.1 ht
    obtain ⟨b, hb⟩ := Choices.exists_merge? (ha c List.mem_cons_self)
    have hbt : ∀ d ∈ t, Choices.Agree b d.choices := by
      intro d hd fork x y hx hy
      rcases (Choices.find?_merge? hb).1 hx with hx | hx
      · exact ha d (List.mem_cons_of_mem c hd) fork x y hx hy
      · exact hc d hd fork x y hx hy
    obtain ⟨m, hm⟩ := exists_mergeChoices? hbt ht
    exact ⟨m, mergeChoices?_cons.2 ⟨b, hb, hm⟩⟩

/-- Channels whose choices were merged agree with each other. -/
theorem agree_of_mergeChoices? {t : List (Channel (Plan α))} {a m : Choices}
    (h : mergeChoices? a t = some m) {c d : Channel (Plan α)} (hc : c ∈ t) (hd : d ∈ t) :
    Choices.Agree c.choices d.choices := by
  intro fork x y hx hy
  have h1 := (find?_mergeChoices? h).2 (.inr ⟨c, hc, hx⟩)
  have h2 := (find?_mergeChoices? h).2 (.inr ⟨d, hd, hy⟩)
  rw [h1] at h2
  exact Option.some.inj h2

/-- The choices of some channels can be merged if no two channels disagree. -/
theorem isSome_mergeChoices?_iff {t : List (Channel (Plan α))} :
    (mergeChoices? Table.empty t).isSome = true ↔
      t.Pairwise fun c d => Choices.Agree c.choices d.choices := by
  rw [Option.isSome_iff_exists]
  constructor
  · rintro ⟨m, hm⟩
    exact List.pairwise_of_forall_mem_list fun c hc d hd => agree_of_mergeChoices? hm hc hd
  · intro h
    exact exists_mergeChoices? (fun c _ fork x y hx _ => by simp at hx) h

end Channel

/-! ## §2 What every candidate is made of -/

namespace Problem

/-- Candidates stay, and a limit once reached stays reached. -/
structure Found.Grows (f f' : Found α) : Prop where
  plans : ∀ q ∈ f.plans, q ∈ f'.plans
  exhausted : f.search.exhausted = true → f'.search.exhausted = true

theorem Found.Grows.refl (f : Found α) : Found.Grows f f := ⟨fun _ h => h, fun h => h⟩

theorem Found.Grows.isEmpty_eq_false {f f' : Found α} (h : Found.Grows f f')
    (hf : f.plans.isEmpty = false) : f'.plans.isEmpty = false := by
  obtain ⟨q, hq⟩ := Array.exists_mem_of_ne_empty _ (by simpa using hf)
  have hq' := h.plans q hq
  cases hempty : f'.plans.isEmpty with
  | false => rfl
  | true =>
    obtain hnil : f'.plans = #[] := by simpa using hempty
    rw [hnil] at hq'
    simp at hq'

variable [Quantity α] {p : Problem α} {node : Node}

/-- The alternatives of a node, with the sizes that were estimated. -/
def alternatives (p : Problem α) (node : Node) (t : List (Channel (Plan α))) :
    List (Alternative α) :=
  node.alternatives (fun id => (p.analysis.estimates id).size) t

/-- One more channel is tried: limits are looked at as soon as there is a candidate. -/
def tryChannel (p : Problem α) (node : Node) (rest : List (List (Channel (Plan α))))
    (chosen : List (Channel (Plan α))) (choices : Choices) (f : Found α)
    (c : Channel (Plan α)) : Found α :=
  let f := if f.plans.isEmpty then f else { f with search := p.checkLimits f.search }
  if !f.plans.isEmpty && f.search.exhausted then f
  else match Choices.merge? choices c.choices with
    | none => { f with search := { f.search with conflicts := f.search.conflicts + 1 } }
    | some merged => p.combine node rest (chosen ++ [c]) merged f

theorem combine_nil (chosen : List (Channel (Plan α))) (choices : Choices) (f : Found α) :
    p.combine node [] chosen choices f =
      (p.alternatives node chosen).foldl (p.make node choices) f := rfl

theorem combine_cons (channels : List (Channel (Plan α)))
    (rest : List (List (Channel (Plan α)))) (chosen : List (Channel (Plan α)))
    (choices : Choices) (f : Found α) :
    p.combine node (channels :: rest) chosen choices f =
      channels.foldl (p.tryChannel node rest chosen choices) f := rfl

/-- What making a candidate out of a fitting combination keeps, what counting a conflict keeps and
what looking at the limits keeps, going through all combinations keeps. -/
theorem combine_induct {P : Found α → Prop}
    (hconflict : ∀ f, P f →
      P { f with search := { f.search with conflicts := f.search.conflicts + 1 } })
    (hlimits : ∀ f, P f → P { f with search := p.checkLimits f.search }) :
    ∀ {rest : List (List (Channel (Plan α)))} {chosen : List (Channel (Plan α))}
      {choices : Choices} {f : Found α},
      (∀ f t m alt, Picks t rest → Channel.mergeChoices? choices t = some m →
        alt ∈ p.alternatives node (chosen ++ t) → P f → P (p.make node m f alt)) →
          P f → P (p.combine node rest chosen choices f)
  | [], chosen, choices, f, hmake, hf => by
    rw [combine_nil]
    refine List.foldlRecOn _ _ hf ?_
    intro f hf alt halt
    exact hmake f [] choices alt .nil rfl (by rwa [List.append_nil]) hf
  | channels :: rest, chosen, choices, f, hmake, hf => by
    rw [combine_cons]
    refine List.foldlRecOn _ _ hf ?_
    intro f hf c hc
    unfold tryChannel
    have hf' : P (if f.plans.isEmpty then f else { f with search := p.checkLimits f.search }) := by
      split
      · exact hf
      · exact hlimits f hf
    dsimp only
    generalize (if f.plans.isEmpty then f else { f with search := p.checkLimits f.search }) = f'
      at hf'
    split
    · exact hf'
    · split
      · exact hconflict f' hf'
      · rename_i merged hmerged
        refine combine_induct hconflict hlimits ?_ hf'
        intro f t m alt ht hm halt hf
        refine hmake f (c :: t) m alt (.cons hc ht) ?_ ?_ hf
        · exact Channel.mergeChoices?_cons.2 ⟨merged, hmerged, hm⟩
        · rwa [List.append_assoc, List.singleton_append] at halt

/-! ## §3 Which combinations are not missed -/

theorem combine_grows (p : Problem α) (node : Node) (rest : List (List (Channel (Plan α))))
    (chosen : List (Channel (Plan α))) (choices : Choices) (f : Found α) :
    Found.Grows f (p.combine node rest chosen choices f) := by
  refine combine_induct (P := Found.Grows f) ?_ ?_ ?_ (Found.Grows.refl f)
  · intro f' h
    exact ⟨h.plans, h.exhausted⟩
  · intro f' h
    refine ⟨h.plans, fun hex => ?_⟩
    show p.isExhausted f'.search = true
    unfold isExhausted
    rw [h.exhausted hex]
    rfl
  · intro f' t m alt _ _ _ h
    refine ⟨fun q hq => ?_, h.exhausted⟩
    exact Array.mem_push_of_mem _ (h.plans q hq)

theorem foldl_make_grows (choices : Choices) (alts : List (Alternative α)) (f : Found α) :
    Found.Grows f (alts.foldl (p.make node choices) f) := by
  refine List.foldlRecOn (motive := Found.Grows f) _ _ (Found.Grows.refl f) ?_
  intro f' h alt _
  exact ⟨fun q hq => Array.mem_push_of_mem _ (h.plans q hq), h.exhausted⟩

theorem tryChannel_grows (rest : List (List (Channel (Plan α))))
    (chosen : List (Channel (Plan α))) (choices : Choices) (f : Found α)
    (c : Channel (Plan α)) : Found.Grows f (p.tryChannel node rest chosen choices f c) :=
  p.combine_grows node ([c] :: rest) chosen choices f

/-- If no limit was reached, every alternative of every fitting combination is a candidate. -/
theorem exists_of_combine {alt : Alternative α} {m : Choices} :
    ∀ {rest : List (List (Channel (Plan α)))} {t chosen : List (Channel (Plan α))}
      {choices : Choices} {f : Found α},
      (p.combine node rest chosen choices f).search.exhausted = false → Picks t rest →
        Channel.mergeChoices? choices t = some m → alt ∈ p.alternatives node (chosen ++ t) →
          ∃ id, p.plan node m id alt ∈ (p.combine node rest chosen choices f).plans
  | [], _, chosen, choices, f, _, .nil, hm, halt => by
    obtain rfl : choices = m := by simpa [Channel.mergeChoices?] using hm
    rw [List.append_nil] at halt
    obtain ⟨before, after, halts⟩ := List.append_of_mem halt
    rw [combine_nil, halts, List.foldl_append, List.foldl_cons]
    generalize before.foldl (p.make node choices) f = f₁
    refine ⟨f₁.search.made.size, ?_⟩
    exact (foldl_make_grows choices after _).plans _ Array.mem_push_self
  | channels :: rest, _, chosen, choices, f, hex,
      @List.Forall₂.cons _ _ _ c _ t _ hc ht, hm, halt => by
    obtain ⟨merged, hmerged, hm⟩ := Channel.mergeChoices?_cons.1 hm
    obtain ⟨before, after, hchannels⟩ := List.append_of_mem hc
    have hsplit : p.combine node (channels :: rest) chosen choices f =
        p.combine node (after :: rest) chosen choices
          (p.tryChannel node rest chosen choices
            (before.foldl (p.tryChannel node rest chosen choices) f) c) := by
      rw [combine_cons, hchannels, List.foldl_append, List.foldl_cons, ← combine_cons]
    rw [hsplit] at hex ⊢
    generalize before.foldl (p.tryChannel node rest chosen choices) f = f₁ at hex ⊢
    have hgrow := p.combine_grows node (after :: rest) chosen choices
      (p.tryChannel node rest chosen choices f₁ c)
    have hex₁ : (p.tryChannel node rest chosen choices f₁ c).search.exhausted = false := by
      cases h : (p.tryChannel node rest chosen choices f₁ c).search.exhausted with
      | false => rfl
      | true =>
        rw [hgrow.exhausted h] at hex
        simp at hex
    suffices hfound : ∃ id, p.plan node m id alt ∈
        (p.tryChannel node rest chosen choices f₁ c).plans by
      obtain ⟨id, hid⟩ := hfound
      exact ⟨id, hgrow.plans _ hid⟩
    unfold tryChannel at hex₁ ⊢
    dsimp only at hex₁ ⊢
    generalize (if f₁.plans.isEmpty then f₁ else { f₁ with search := p.checkLimits f₁.search })
      = f₂ at hex₁ ⊢
    split at hex₁
    · rename_i hskip
      simp [hex₁] at hskip
    · rename_i hgo
      rw [if_neg hgo]
      rw [hmerged] at hex₁ ⊢
      refine exists_of_combine hex₁ ht hm ?_
      rwa [List.append_assoc, List.singleton_append]

/-- The search for a first candidate is never cut short. -/
theorem isEmpty_of_picks {m : Choices} :
    ∀ {rest : List (List (Channel (Plan α)))} {t chosen : List (Channel (Plan α))}
      {choices : Choices} {f : Found α}, Picks t rest →
        Channel.mergeChoices? choices t = some m → p.alternatives node (chosen ++ t) ≠ [] →
          (p.combine node rest chosen choices f).plans.isEmpty = false
  | [], _, chosen, choices, f, .nil, hm, halt => by
    obtain rfl : choices = m := by simpa [Channel.mergeChoices?] using hm
    rw [List.append_nil] at halt
    obtain ⟨alt, rest, halts⟩ := List.exists_cons_of_ne_nil halt
    rw [combine_nil, halts, List.foldl_cons]
    exact (foldl_make_grows choices rest _).isEmpty_eq_false (by simp [make])
  | channels :: rest, _, chosen, choices, f, @List.Forall₂.cons _ _ _ c _ t _ hc ht, hm, halt => by
    obtain ⟨merged, hmerged, hm⟩ := Channel.mergeChoices?_cons.1 hm
    obtain ⟨before, after, hchannels⟩ := List.append_of_mem hc
    rw [combine_cons, hchannels, List.foldl_append, List.foldl_cons, ← combine_cons]
    generalize before.foldl (p.tryChannel node rest chosen choices) f = f₁
    have hgrow := p.combine_grows node (after :: rest) chosen choices
      (p.tryChannel node rest chosen choices f₁ c)
    apply hgrow.isEmpty_eq_false
    cases hempty : f₁.plans.isEmpty with
    | false => exact (tryChannel_grows rest chosen choices f₁ c).isEmpty_eq_false hempty
    | true =>
      unfold tryChannel
      simp only [hempty, if_true, Bool.not_true, Bool.false_and, Bool.false_eq_true, if_false,
        hmerged]
      refine isEmpty_of_picks ht hm ?_
      rwa [List.append_assoc, List.singleton_append]

/-- Whatever the limits are, a node is left without a candidate only if no combination that fits
together can run. -/
theorem combine_isEmpty_iff {inputs : List (List (Channel (Plan α)))} {s : Search α} :
    (p.combine node inputs [] Table.empty { search := s }).plans.isEmpty = true ↔
      ∀ t m, Picks t inputs → Channel.mergeChoices? Table.empty t = some m →
        p.alternatives node t = [] := by
  constructor
  · intro hempty t m ht hm
    by_contra halt
    rw [isEmpty_of_picks ht hm (by simpa using halt)] at hempty
    simp at hempty
  · intro hnone
    refine combine_induct (P := fun f => f.plans.isEmpty = true) ?_ ?_ ?_ rfl
    · intro f hf
      exact hf
    · intro f hf
      exact hf
    · intro f t m alt ht hm halt _
      rw [List.nil_append, hnone t m ht hm] at halt
      simp at halt

end Problem

end FlowPlanner
