/-
FlowPlanner.Proofs.Analysis.Sizes — an unknown size stays unknown until a hint gives it.

Each of the two sizes that pricing reads has a hint of its own to come from: a number of
records from values per key or records per call, a number of bytes from bytes per record.
Where a node carries no such hint, its size is computed from that of every one of its
producers, whatever the node does (`Node.isSome_records_estimate_iff`,
`Node.isSome_size_of_estimate`). Along a path without hints nothing that is known was
unknown before (`known_below_known_above`).
-/
import FlowPlanner.Proofs.Graph.Growth
import FlowPlanner.Proofs.Optimizer

namespace FlowPlanner

variable {α : Type} [Quantity α]

/-! ## §1 One node -/

namespace Quantity

/-- A quotient is known only if both quantities are. -/
theorem isSome_of_isSome_ratio? {a b : Option α} (h : (ratio? a b).isSome = true) :
    a.isSome = true ∧ b.isSome = true := by
  cases a <;> cases b <;> simp_all [ratio?]

end Quantity

namespace Estimates

open Quantity

/-- The records of a join are counted by keys and pairs, so both must be known of both inputs. -/
theorem isSome_calls_equiJoin (a b : Estimates α) :
    (calls (.operator .equiJoin) [a, b]).isSome =
      ((a.keys.isSome && b.keys.isSome) && (a.records.isSome && b.records.isSome)) := by
  obtain ⟨ra, ka, -, -⟩ := a
  obtain ⟨rb, kb, -, -⟩ := b
  cases ka <;> cases kb <;> cases ra <;> cases rb <;> rfl

/-- Without a hint on values per key or records per call, the user code is taken to put out the
default number of records. -/
theorem derivedRecords_eq_default {sizes : SizeHints} (hvalues : sizes.valuesPerKey = none)
    (hperCall : sizes.recordsPerCall = none) (kind : NodeKind) (inputs : List (Estimates α))
    (keys calls : Option α) :
    derivedRecords kind sizes inputs keys calls = defaultRecords kind inputs calls := by
  unfold derivedRecords
  rw [hvalues, hperCall]
  cases keys <;> rfl

/-- A default number of records is known if the records of all inputs are, and of a join the keys,
too. -/
theorem isSome_defaultRecords_iff {kind : Kind} {inputs : List (Estimates α)} (hne : inputs ≠ [])
    (hlength : inputs.length = kind.arity) (hunion : kind.isUnion = false) :
    (defaultRecords (.operator kind) inputs (calls (.operator kind) inputs)).isSome = true ↔
      (∀ e ∈ inputs, e.records.isSome = true) ∧
        (kind = .equiJoin → ∀ e ∈ inputs, e.keys.isSome = true) := by
  cases kind with
  | source spec => exact absurd (List.length_eq_zero_iff.1 hlength) hne
  | union => simp [Kind.isUnion] at hunion
  | map =>
    obtain ⟨a, rfl⟩ := List.length_eq_one_iff.1 hlength
    simp [defaultRecords]
  | reduce =>
    obtain ⟨a, rfl⟩ := List.length_eq_one_iff.1 hlength
    simp [defaultRecords]
  | sink =>
    obtain ⟨a, rfl⟩ := List.length_eq_one_iff.1 hlength
    simp [defaultRecords]
  | equiJoin =>
    obtain ⟨a, b, rfl⟩ := List.length_eq_two.1 hlength
    have hcalls : defaultRecords (.operator .equiJoin) [a, b] (calls (.operator .equiJoin) [a, b]) =
        calls (.operator .equiJoin) [a, b] := rfl
    rw [hcalls, isSome_calls_equiJoin]
    simp only [Bool.and_eq_true, List.forall_mem_cons]
    tauto
  | cross =>
    obtain ⟨a, b, rfl⟩ := List.length_eq_two.1 hlength
    have hcalls : defaultRecords (.operator .cross) [a, b] (calls (.operator .cross) [a, b]) =
        mul? a.records b.records := rfl
    rw [hcalls, isSome_mul?]
    simp
  | coGroup =>
    have hsum : defaultRecords (.operator .coGroup) inputs (calls (.operator .coGroup) inputs) =
        sum? (inputs.map (·.records)) := rfl
    rw [hsum, isSome_sum?]
    simp

/-- Without a hint on bytes per record, a known size was computed from the sizes of all inputs. -/
theorem isSome_size_of_derived {node : Node} (hwidth : node.sizes.bytesPerRecord = none)
    {inputs : List (Estimates α)} (h : (derived node inputs).size.isSome = true) :
    ∀ e ∈ inputs, e.size.isSome = true := by
  have hratio : (ratio? (sum? (inputs.map (·.size)))
      (sum? (inputs.map (·.records)))).isSome = true := by
    unfold derived at h
    dsimp only at h
    rw [hwidth, Option.map_none, Option.none_or] at h
    split at h
    · rename_i hw
      rw [hw]
      rfl
    · simp at h
  have hsum := (isSome_of_isSome_ratio? hratio).1
  rw [isSome_sum?, List.all_map, List.all_eq_true] at hsum
  exact hsum

end Estimates

namespace Node

variable {n : Node} {inputs : List (Estimates α)}

/-- Where nothing is said about its records, a node counts them from those of all inputs; a join
counts by keys, too. -/
theorem isSome_records_estimate_iff (hn : n.kind.Accepts n.keys (n.inputs.map (·.position)))
    (hlength : inputs.length = n.inputs.length) (hvalues : n.sizes.valuesPerKey = none)
    (hperCall : n.sizes.recordsPerCall = none) (hne : inputs ≠ []) :
    (n.estimate inputs).records.isSome = true ↔ (∀ e ∈ inputs, e.records.isSome = true) ∧
      (n.kind = .operator .equiJoin → ∀ e ∈ inputs, e.keys.isSome = true) := by
  have hunion : (Estimates.ofUnion inputs).clamp.records.isSome = true ↔
      ∀ e ∈ inputs, e.records.isSome = true := by
    have hsum : (Estimates.ofUnion inputs).clamp.records =
        Quantity.sum? (inputs.map (·.records)) := rfl
    rw [hsum, Quantity.isSome_sum?]
    simp
  have hderived : (Estimates.derived n inputs).clamp.records =
      Estimates.defaultRecords n.kind inputs (Estimates.calls n.kind inputs) :=
    Estimates.derivedRecords_eq_default hvalues hperCall _ _ _ _
  cases hkind : n.kind with
  | sinkJoiner => simpa [estimate, hkind] using hunion
  | operator kind =>
    cases hdeclared : kind.isUnion with
    | true =>
      cases kind <;> simp [Kind.isUnion] at hdeclared
      simpa [estimate, hkind] using hunion
    | false =>
      have harity : inputs.length = kind.arity := by
        rw [hkind] at hn
        rw [hlength, ← hn.length hdeclared, List.length_map]
      have hestimate : n.estimate inputs = (Estimates.derived n inputs).clamp := by
        unfold estimate
        rw [hkind]
        cases kind with
        | source spec => exact absurd (List.length_eq_zero_iff.1 harity) hne
        | union => simp [Kind.isUnion] at hdeclared
        | _ => rfl
      rw [hestimate, hderived, hkind, Estimates.isSome_defaultRecords_iff hne harity hdeclared]
      simp

/-- Where nothing is said about its bytes per record, a node knows its size only if it knows that
of all inputs. -/
theorem isSome_size_of_estimate (hn : n.kind.Accepts n.keys (n.inputs.map (·.position)))
    (hlength : inputs.length = n.inputs.length) (hwidth : n.sizes.bytesPerRecord = none)
    (h : (n.estimate inputs).size.isSome = true) : ∀ e ∈ inputs, e.size.isSome = true := by
  have hunion : (Estimates.ofUnion inputs).clamp.size.isSome = true →
      ∀ e ∈ inputs, e.size.isSome = true := by
    have hsum : (Estimates.ofUnion inputs).clamp.size =
        Quantity.sum? (inputs.map (·.size)) := rfl
    rw [hsum, Quantity.isSome_sum?]
    simp
  unfold estimate at h
  split at h
  · rename_i spec hkind
    rw [hkind] at hn
    have hnone : inputs.length = 0 := by
      rw [hlength, ← List.length_map (f := (·.position)), hn.length rfl]
      rfl
    rw [List.length_eq_zero_iff.1 hnone]
    simp
  · exact hunion h
  · exact hunion h
  · exact Estimates.isSome_size_of_derived hwidth h

end Node

/-! ## §2 Paths -/

/-- Nothing is said about an operator's output. -/
def SizeHints.isSilent (s : SizeHints) : Bool :=
  s.keyCardinality.isNone && s.valuesPerKey.isNone && s.recordsPerCall.isNone &&
    s.bytesPerRecord.isNone

theorem SizeHints.isSilent_iff {s : SizeHints} : s.isSilent = true ↔ s = {} := by
  obtain ⟨k, v, a, w⟩ := s
  cases k <;> cases v <;> cases a <;> cases w <;> simp [isSilent]

namespace Graph

/-- Data of one node ends up in the other, and no node after the first one carries a hint. -/
def ReachesUnhinted (g : Graph) : NodeId → NodeId → Prop :=
  Relation.ReflTransGen fun a b => g.Feeds a b ∧ (g.node b).sizes.isSilent = true

/-- What a node without hints knows only if all its producers know it, a node at the end of a path
without hints knows only if the node at its start does. -/
theorem ReachesUnhinted.known {g : Graph} {P : NodeId → Prop}
    (hstep : ∀ b, (g.node b).sizes.isSilent = true → P b → ∀ c ∈ (g.node b).inputs, P c.source)
    {a b : NodeId} (h : g.ReachesUnhinted a b) (hb : P b) : P a := by
  induction h with
  | refl => exact hb
  | tail _ hbc ih =>
    obtain ⟨⟨c, hc, rfl⟩, hsilent⟩ := hbc
    exact ih (hstep _ hsilent hb c hc)

/-- A node without a hint on its number of records knows it only if all its producers know
theirs. -/
theorem isSome_records_of_mem {g : Graph} (hg : g.Numbered) {n : NodeId}
    (hvalues : (g.node n).sizes.valuesPerKey = none)
    (hperCall : (g.node n).sizes.recordsPerCall = none)
    (h : ((g.estimates : Array (Estimates α)).getD n .unknown).records.isSome = true)
    {c : Connection} (hc : c ∈ (g.node n).inputs) :
    ((g.estimates : Array (Estimates α)).getD c.source .unknown).records.isSome = true := by
  have hn := lt_size_of_mem hc
  rw [estimates_getD hg hn] at h
  have hread := List.mem_map_of_mem (f := fun c : Connection =>
    (g.estimates : Array (Estimates α)).getD c.source .unknown) hc
  exact ((Node.isSome_records_estimate_iff (hg.accepted n hn) (List.length_map _) hvalues hperCall
    (List.ne_nil_of_mem hread)).1 h).1 _ hread

/-- A node without a hint on its bytes per record knows its size only if all its producers know
theirs. -/
theorem isSome_size_of_mem {g : Graph} (hg : g.Numbered) {n : NodeId}
    (hwidth : (g.node n).sizes.bytesPerRecord = none)
    (h : ((g.estimates : Array (Estimates α)).getD n .unknown).size.isSome = true)
    {c : Connection} (hc : c ∈ (g.node n).inputs) :
    ((g.estimates : Array (Estimates α)).getD c.source .unknown).size.isSome = true := by
  have hn := lt_size_of_mem hc
  rw [estimates_getD hg hn] at h
  exact Node.isSome_size_of_estimate (hg.accepted n hn) (List.length_map _) hwidth h _
    (List.mem_map_of_mem hc)

end Graph

/-- Along a path without hints an unknown size stays unknown: a number of records that is known at
the end of the path was known at its start, and so was a number of bytes. What else the nodes on
the path read makes no difference. -/
theorem known_below_known_above {o : Optimizer α} {job : Job} {p : Problem α}
    (h : o.prepare job = .ok p) {a b : NodeId} (hpath : p.graph.ReachesUnhinted a b) :
    ((p.analysis.estimates b).records.isSome = true →
        (p.analysis.estimates a).records.isSome = true) ∧
      ((p.analysis.estimates b).size.isSome = true →
        (p.analysis.estimates a).size.isSome = true) := by
  have hp := o.prepared h
  have hestimates : ∀ n, p.analysis.estimates n = p.graph.estimates.getD n .unknown := by
    rw [hp.analysis_eq]
    intro n
    rfl
  rw [hestimates a, hestimates b]
  constructor
  · intro hb
    refine hpath.known (P := fun n =>
      ((p.graph.estimates : Array (Estimates α)).getD n .unknown).records.isSome = true) ?_ hb
    intro n hsilent hn c hc
    rw [SizeHints.isSilent_iff] at hsilent
    exact Graph.isSome_records_of_mem hp.wellFormed.toNumbered (by rw [hsilent]) (by rw [hsilent])
      hn hc
  · intro hb
    refine hpath.known (P := fun n =>
      ((p.graph.estimates : Array (Estimates α)).getD n .unknown).size.isSome = true) ?_ hb
    intro n hsilent hn c hc
    rw [SizeHints.isSilent_iff] at hsilent
    exact Graph.isSome_size_of_mem hp.wellFormed.toNumbered (by rw [hsilent]) hn hc

/-- A source that was measured and one that was not: a map reads the first one, and a cross reads
both. -/
def halfMeasured : Job where
  operators :=
    [{ id := 1, name := "counted"
       kind := .source { statistics := { records := some 4, bytes := some 64 } } },
     { id := 2, name := "guessed", kind := .source {} },
     { id := 3, name := "copy", kind := .map, inputs := [[1]] },
     { id := 4, name := "pairs", kind := .cross, inputs := [[3], [2]] },
     { id := 5, name := "out", kind := .sink, inputs := [[3]] },
     { id := 6, name := "log", kind := .sink, inputs := [[4]] }]

/-- Where the joiner ties both branches together nothing is known, since nothing is known of the
second source; along the first branch everything is. -/
theorem known_below_known_above_halfMeasured : ∃ p,
    Optimizer.ofUnitWeights.prepare halfMeasured = .ok p ∧
      (p.graph.ReachesUnhinted 0 4 ∧ (p.analysis.estimates 4).records.isSome = true ∧
        (p.analysis.estimates 4).size.isSome = true ∧
          (p.analysis.estimates 0).records.isSome = true ∧
            (p.analysis.estimates 0).size.isSome = true) ∧
        p.graph.ReachesUnhinted 1 6 ∧ (p.analysis.estimates 1).records = none ∧
          (p.analysis.estimates 6).records = none := by
  obtain ⟨p, hprepare, hcheck⟩ := exists_ok_of_any
    (r := Optimizer.ofUnitWeights.prepare halfMeasured)
    (f := fun p => ([(0, 2), (2, 4), (1, 3), (3, 5), (5, 6)].all fun e =>
        (p.graph.node e.2).inputs.any (·.source == e.1) && (p.graph.node e.2).sizes.isSilent) &&
      (p.analysis.estimates 4).records.isSome && (p.analysis.estimates 4).size.isSome &&
        (p.analysis.estimates 1).records.isNone) (by decide +kernel)
  simp only [Bool.and_eq_true, List.all_eq_true, List.any_eq_true, beq_iff_eq,
    Option.isNone_iff_eq_none] at hcheck
  obtain ⟨⟨⟨hedges, hrecords⟩, hsize⟩, hunknown⟩ := hcheck
  have hfirst : p.graph.ReachesUnhinted 0 4 :=
    .tail (.single (hedges (0, 2) (by decide))) (hedges (2, 4) (by decide))
  have hsecond : p.graph.ReachesUnhinted 1 6 :=
    .tail (.tail (.single (hedges (1, 3) (by decide))) (hedges (3, 5) (by decide)))
      (hedges (5, 6) (by decide))
  obtain ⟨hrecords₀, hsize₀⟩ := known_below_known_above hprepare hfirst
  refine ⟨p, hprepare, ⟨hfirst, hrecords, hsize, hrecords₀ hrecords, hsize₀ hsize⟩, hsecond,
    hunknown, ?_⟩
  by_contra hknown
  have hknown₁ := (known_below_known_above hprepare hsecond).1 (Option.isSome_iff_ne_none.2 hknown)
  rw [hunknown] at hknown₁
  simp at hknown₁

end FlowPlanner
