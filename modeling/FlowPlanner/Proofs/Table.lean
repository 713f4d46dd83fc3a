/-
FlowPlanner.Proofs.Table — tables under a function on their values.

A table is determined by what lookup finds (`Table.ext`). So a function on the values,
which may look at the keys, commutes with all that is done to tables, and loses nothing
where it keeps apart the values that one key can have (`mapValues_inj`).
-/
import FlowPlanner.Table
import Mathlib.Data.List.Sort

namespace FlowPlanner

namespace Table

variable {κ β γ : Type} [Ord κ]

/-! ## §1 Tables that look alike -/

/-- Tables in which lookup finds the same are the same. -/
theorem ext [Std.TransOrd κ] [Std.LawfulEqOrd κ] {s t : Table κ β}
    (h : ∀ k, s.find? k = t.find? k) : s = t := by
  let before : κ × β → κ × β → Prop := fun a b => compare a.1 b.1 = .lt
  have hirrefl : Std.Irrefl before := ⟨fun a ha => by simp [before] at ha⟩
  have hantisymm : Std.Antisymm before := ⟨fun a b hab hba => by
    have hgt := Std.OrientedCmp.gt_iff_lt.2 hab
    rw [show compare b.1 a.1 = .lt from hba] at hgt
    simp at hgt⟩
  have hentries : s.entries = t.entries := by
    refine List.Pairwise.eq_of_mem_iff (r := before) s.ascending t.ascending ?_
    rintro ⟨k, v⟩
    rw [mem_entries_iff, mem_entries_iff, h]
  cases s
  cases t
  simpa using hentries

/-- The keys of a table are those at which lookup finds something. -/
theorem mem_keys_iff [Std.TransOrd κ] [Std.LawfulEqOrd κ] {t : Table κ β} {k : κ} :
    k ∈ t.keys ↔ ∃ v, t.find? k = some v := by
  unfold keys
  rw [List.mem_map]
  constructor
  · rintro ⟨⟨k, v⟩, he, rfl⟩
    exact ⟨v, mem_entries_iff.1 he⟩
  · rintro ⟨v, hv⟩
    exact ⟨(k, v), mem_entries_iff.2 hv, rfl⟩

theorem insert_insert [Std.TransOrd κ] [Std.LawfulEqOrd κ] (t : Table κ β) (k : κ) (v w : β) :
    (t.insert k v).insert k w = t.insert k w := by
  refine ext fun x => ?_
  rw [find?_insert, find?_insert, find?_insert]
  by_cases hx : compare x k = .eq
  · rw [if_pos hx, if_pos hx]
  · rw [if_neg hx, if_neg hx, if_neg hx]

/-- To enter what is there already changes nothing. -/
theorem insert_of_find? [Std.TransOrd κ] [Std.LawfulEqOrd κ] {t : Table κ β} {k : κ} {v : β}
    (h : t.find? k = some v) : t.insert k v = t := by
  refine ext fun x => ?_
  rw [find?_insert]
  split
  · rename_i hx
    rw [Std.LawfulEqCmp.eq_of_compare hx, h]
  · rfl

theorem filterKeys_insert_of_not [Std.TransOrd κ] [Std.LawfulEqOrd κ] (t : Table κ β) {k : κ}
    (v : β) {p : κ → Bool} (hp : p k = false) : (t.insert k v).filterKeys p = t.filterKeys p := by
  refine ext fun x => ?_
  rw [find?_filterKeys, find?_filterKeys, find?_insert]
  by_cases hx : compare x k = .eq
  · rw [Std.LawfulEqCmp.eq_of_compare hx, hp]
    rfl
  · rw [if_neg hx]

/-! ## §2 A function on the values -/

/-- Apply a function to the values of a table; it may look at the keys. -/
def mapValues (f : κ → β → γ) (t : Table κ β) : Table κ γ :=
  ⟨t.entries.map fun e => (e.1, f e.1 e.2), List.pairwise_map.2 t.ascending⟩

theorem find?_mapValues [Std.LawfulEqOrd κ] (f : κ → β → γ) (t : Table κ β) (k : κ) :
    (t.mapValues f).find? k = (t.find? k).map (f k) := by
  unfold find? mapValues
  rw [List.find?_map, Option.map_map, Option.map_map]
  show (t.entries.find? fun e => compare k e.1 == .eq).map (fun e => f e.1 e.2) =
    (t.entries.find? fun e => compare k e.1 == .eq).map (fun e => f k e.2)
  cases hfind : t.entries.find? fun e => compare k e.1 == .eq with
  | none => rfl
  | some e =>
    have hk : k = e.1 := by simpa using List.find?_some hfind
    rw [Option.map_some, Option.map_some, hk]

theorem insert_mapValues [Std.TransOrd κ] [Std.LawfulEqOrd κ] (f : κ → β → γ) (t : Table κ β)
    (k : κ) (v : β) : (t.mapValues f).insert k (f k v) = (t.insert k v).mapValues f := by
  refine ext fun x => ?_
  rw [find?_insert, find?_mapValues, find?_mapValues, find?_insert]
  by_cases hx : compare x k = .eq
  · rw [if_pos hx, if_pos hx, Std.LawfulEqCmp.eq_of_compare hx]
    rfl
  · rw [if_neg hx, if_neg hx]

theorem filterKeys_mapValues [Std.TransOrd κ] [Std.LawfulEqOrd κ] (f : κ → β → γ) (t : Table κ β)
    (p : κ → Bool) : (t.mapValues f).filterKeys p = (t.filterKeys p).mapValues f := by
  refine ext fun x => ?_
  rw [find?_filterKeys, find?_mapValues, find?_mapValues, find?_filterKeys,
    apply_ite (Option.map (f x))]
  rfl

/-- A function that keeps apart the values which one key can have keeps the tables apart. -/
theorem mapValues_inj [Std.TransOrd κ] [Std.LawfulEqOrd κ] {f : κ → β → γ} {s t : Table κ β}
    (hf : ∀ k v w, s.find? k = some v → t.find? k = some w → f k v = f k w → v = w) :
    s.mapValues f = t.mapValues f ↔ s = t := by
  refine ⟨fun h => ext fun k => ?_, fun h => h ▸ rfl⟩
  have hk := congrArg (find? · k) h
  rw [find?_mapValues, find?_mapValues] at hk
  cases hv : s.find? k with
  | none =>
    rw [hv, Option.map_none, eq_comm, Option.map_eq_none_iff] at hk
    exact hk.symm
  | some v =>
    rw [hv, Option.map_some, eq_comm, Option.map_eq_some_iff] at hk
    obtain ⟨w, hw, heq⟩ := hk
    rw [hw, hf k v w hv hw heq.symm]

end Table

end FlowPlanner
