/-
FlowPlanner.Table — finite maps whose entries stand in ascending key order.

Used wherever an answer shows the keys in order: the hints of an operator, the
fork choices of a plan, the counts per node. The order is part of the type, so
two tables with the same entries are equal values.
-/

namespace FlowPlanner

/-- A finite map, listed by ascending key. -/
structure Table (κ β : Type) [Ord κ] where
  entries : List (κ × β)
  ascending : entries.Pairwise (fun a b => compare a.1 b.1 = .lt)

namespace Table

variable {κ β : Type} [Ord κ]

instance [DecidableEq κ] [DecidableEq β] : DecidableEq (Table κ β) := fun s t =>
  decidable_of_iff (s.entries = t.entries) (by
    obtain ⟨a, ha⟩ := s
    obtain ⟨b, hb⟩ := t
    simp)

/-! ## §1 Entries -/

/-- Put an entry into its place; an entry with the same key gives way. -/
def insertEntry (k : κ) (v : β) : List (κ × β) → List (κ × β)
  | [] => [(k, v)]
  | e :: es =>
    match compare k e.1 with
    | .lt => (k, v) :: e :: es
    | .eq => (k, v) :: es
    | .gt => e :: insertEntry k v es

theorem mem_insertEntry {k : κ} {v : β} {es : List (κ × β)} {x : κ × β}
    (h : x ∈ insertEntry k v es) : x = (k, v) ∨ x ∈ es := by
  induction es with
  | nil => exact .inl (by simpa [insertEntry] using h)
  | cons e es ih =>
    simp only [insertEntry] at h
    split at h
    · simpa using h
    · rcases List.mem_cons.1 h with h | h
      · exact .inl h
      · exact .inr (by simp [h])
    · rcases List.mem_cons.1 h with h | h
      · exact .inr (by simp [h])
      · rcases ih h with h | h
        · exact .inl h
        · exact .inr (by simp [h])

theorem pairwise_insertEntry [Std.TransOrd κ] {k : κ} {v : β} {es : List (κ × β)}
    (h : es.Pairwise (fun a b => compare a.1 b.1 = .lt)) :
    (insertEntry k v es).Pairwise (fun a b => compare a.1 b.1 = .lt) := by
  induction es with
  | nil => simp [insertEntry]
  | cons e es ih =>
    obtain ⟨he, hes⟩ := List.pairwise_cons.1 h
    simp only [insertEntry]
    split
    · rename_i hk
      refine List.pairwise_cons.2 ⟨?_, h⟩
      intro x hx
      rcases List.mem_cons.1 hx with rfl | hx
      · exact hk
      · exact Std.TransCmp.lt_trans hk (he x hx)
    · rename_i hk
      refine List.pairwise_cons.2 ⟨?_, hes⟩
      intro x hx
      exact Std.TransCmp.lt_of_eq_of_lt hk (he x hx)
    · rename_i hk
      refine List.pairwise_cons.2 ⟨?_, ih hes⟩
      intro x hx
      rcases mem_insertEntry hx with rfl | hx
      · exact Std.OrientedCmp.gt_iff_lt.1 hk
      · exact he x hx

/-! ## §2 Tables -/

/-- The table without entries. -/
def empty : Table κ β := ⟨[], .nil⟩

instance : Inhabited (Table κ β) := ⟨empty⟩

/-- The table with a value at a key; an earlier value of that key is replaced. -/
def insert [Std.TransOrd κ] (t : Table κ β) (k : κ) (v : β) : Table κ β :=
  ⟨insertEntry k v t.entries, pairwise_insertEntry t.ascending⟩

/-- Entries put in one after the other: the last value of a key stays. -/
def ofList [Std.TransOrd κ] (es : List (κ × β)) : Table κ β :=
  es.foldl (fun t e => t.insert e.1 e.2) empty

/-- The value at a key. -/
def find? (t : Table κ β) (k : κ) : Option β :=
  (t.entries.find? (fun e => compare k e.1 == .eq)).map (·.2)

/-- The entries whose key passes a test. -/
def filterKeys (t : Table κ β) (p : κ → Bool) : Table κ β :=
  ⟨t.entries.filter (fun e => p e.1), t.ascending.sublist (List.filter_sublist)⟩

/-- The keys, ascending. -/
def keys (t : Table κ β) : List κ := t.entries.map (·.1)

@[simp] theorem entries_filterKeys (t : Table κ β) (p : κ → Bool) :
    (t.filterKeys p).entries = t.entries.filter (fun e => p e.1) := rfl

@[simp] theorem find?_empty (k : κ) : (empty : Table κ β).find? k = none := rfl

/-! ## §3 Lookup after insertion -/

theorem find?_insertEntry [Std.TransOrd κ] [Std.LawfulEqOrd κ] (k x : κ) (v : β)
    (es : List (κ × β)) (h : es.Pairwise (fun a b => compare a.1 b.1 = .lt)) :
    ((insertEntry k v es).find? (fun e => compare x e.1 == .eq)).map (·.2) =
      if compare x k = .eq then some v
      else (es.find? (fun e => compare x e.1 == .eq)).map (·.2) := by
  induction es with
  | nil =>
    by_cases hx : compare x k = .eq <;> simp [insertEntry, hx]
  | cons e es ih =>
    obtain ⟨he, hes⟩ := List.pairwise_cons.1 h
    simp only [insertEntry]
    split
    · by_cases hx : compare x k = .eq <;> simp [List.find?_cons, hx]
    · rename_i hk
      have hke : k = e.1 := Std.LawfulEqCmp.eq_of_compare hk
      by_cases hx : compare x k = .eq
      · simp [hx]
      · have hxe : compare x e.1 ≠ .eq := by rw [← hke]; exact hx
        simp [hx, hxe]
    · rename_i hk
      by_cases hxe : compare x e.1 = .eq
      · have hx : compare x k ≠ .eq := by
          intro hx
          have h1 : x = e.1 := Std.LawfulEqCmp.eq_of_compare hxe
          have h2 : x = k := Std.LawfulEqCmp.eq_of_compare hx
          rw [← h2, ← h1] at hk
          simp at hk
        simp [hxe, hx]
      · simp [hxe, ih hes]

/-- After an insertion the new key has the new value and every other key its old one. -/
theorem find?_insert [Std.TransOrd κ] [Std.LawfulEqOrd κ] (t : Table κ β) (k x : κ) (v : β) :
    (t.insert k v).find? x = if compare x k = .eq then some v else t.find? x :=
  find?_insertEntry k x v t.entries t.ascending

/-! ## §4 Entries and lookup -/

theorem find?_filterKeys [Std.LawfulEqOrd κ] (t : Table κ β) (p : κ → Bool) (k : κ) :
    (t.filterKeys p).find? k = if p k then t.find? k else none := by
  obtain ⟨es, h⟩ := t
  simp only [find?, entries_filterKeys]
  clear h
  induction es with
  | nil => simp
  | cons e es ih =>
    by_cases hp : p e.1
    · rw [List.filter_cons_of_pos (by simpa using hp), List.find?_cons, List.find?_cons]
      by_cases hk : compare k e.1 = .eq
      · have hke : k = e.1 := Std.LawfulEqCmp.eq_of_compare hk
        simp [hke, hp]
      · have hk' : (compare k e.1 == .eq) = false := by simpa using hk
        simp only [hk', ih]
    · rw [List.filter_cons_of_neg (by simpa using hp), ih, List.find?_cons]
      by_cases hk : compare k e.1 = .eq
      · have hke : k = e.1 := Std.LawfulEqCmp.eq_of_compare hk
        simp [hke, hp]
      · have hk' : (compare k e.1 == .eq) = false := by simpa using hk
        simp only [hk']

/-- A table lists exactly what lookup finds. -/
theorem mem_entries_iff [Std.TransOrd κ] [Std.LawfulEqOrd κ] {t : Table κ β} {k : κ} {v : β} :
    (k, v) ∈ t.entries ↔ t.find? k = some v := by
  obtain ⟨es, h⟩ := t
  simp only [find?]
  induction es with
  | nil => simp
  | cons e es ih =>
    obtain ⟨he, hes⟩ := List.pairwise_cons.1 h
    rw [List.mem_cons, List.find?_cons]
    by_cases hk : compare k e.1 = .eq
    · have hke : k = e.1 := Std.LawfulEqCmp.eq_of_compare hk
      have hnot : (k, v) ∉ es := by
        intro hm
        have hlt := he _ hm
        rw [hke] at hlt
        simp at hlt
      obtain ⟨k', v'⟩ := e
      obtain rfl : k = k' := hke
      simp [hnot, eq_comm]
    · have hne : (k, v) ≠ e := by
        intro h1
        rw [← h1] at hk
        simp at hk
      have hk' : (compare k e.1 == .eq) = false := by simpa using hk
      simp only [hne, false_or, hk', ih hes]

end Table

end FlowPlanner
