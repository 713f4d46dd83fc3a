/-
FlowPlanner.Proofs.Property.Meaning — what properties say about data.

A data set is spread over parallel instances (`Spread`). A placement says which
records lie together, an arrangement how the records of one instance follow each
other. Matching is sound for this reading: data with the properties that are known
has those that a request asks for (`Request.isMetBy_sound`). Sorting by columns
groups on them because whatever stands between two records that are equal on all of
them is equal to both (`Row.Sorted.grouped`).

Matching is also no stricter than it has to be (`Request.isMetBy_iff_holds`): where
it says no, two or three records show why, unless data is hashed on nothing at all,
declared to be grouped or sorted twice by one column.
-/
import FlowPlanner.Property.Request
import Mathlib.Data.List.Sublists
import Mathlib.Data.List.TakeWhile
import Mathlib.Logic.Nontrivial.Basic
import Mathlib.Order.Lattice

namespace FlowPlanner

/-! ## §1 Data sets -/

/-- A record: the values of its columns. -/
abbrev Row (V : Type) := Nat → V

/-- A data set that lies on parallel instances. -/
structure Spread (V : Type) where
  /-- All its records. -/
  whole : List (Row V)
  /-- How many instances there are. -/
  width : Nat
  /-- The records that an instance holds, in the order in which they stand there. -/
  rows : Fin width → List (Row V)
  /-- Every record lies on some instance, and no other records do. -/
  mem_whole : ∀ r, r ∈ whole ↔ ∃ i, r ∈ rows i

variable {α V : Type}

namespace Spread

/-- Records that were dealt out: each lies on the one instance that it was dealt to. -/
def dealt {width : Nat} (rows : Fin width → List (Row V)) : Spread V where
  whole := (List.finRange width).flatMap rows
  width := width
  rows := rows
  mem_whole := by simp

/-- Records that lie on one instance, and on so many others in the same order. -/
def copied (others : Nat) (rows : List (Row V)) : Spread V where
  whole := rows
  width := others + 1
  rows := fun _ => rows
  mem_whole := by simp

end Spread

namespace Row

/-- The records are equal on some columns. -/
def Agree (fields : FieldSet) (r s : Row V) : Prop := ∀ f ∈ fields, r f = s f

instance [DecidableEq V] (fields : FieldSet) (r s : Row V) : Decidable (Agree fields r s) :=
  inferInstanceAs (Decidable (∀ f ∈ fields.toList, r f = s f))

/-- In the lexicographic order of some columns the first record does not come after the second. -/
def NotAfter [LT V] (r s : Row V) : List Nat → Prop
  | [] => True
  | f :: fs => r f < s f ∨ r f = s f ∧ NotAfter r s fs

instance NotAfter.decidable [LT V] [DecidableLT V] [DecidableEq V] (r s : Row V) :
    ∀ columns : List Nat, Decidable (NotAfter r s columns)
  | [] => .isTrue trivial
  | f :: fs =>
    have := decidable r s fs
    inferInstanceAs (Decidable (r f < s f ∨ r f = s f ∧ NotAfter r s fs))

/-- The records stand in the lexicographic order of some columns. -/
def Sorted [LT V] (columns : List Nat) (rows : List (Row V)) : Prop :=
  rows.Pairwise fun r s => NotAfter r s columns

/-- Records that are equal on some columns stand next to each other: what stands between two of
them is equal to them there. -/
def Grouped (fields : FieldSet) (rows : List (Row V)) : Prop :=
  ∀ i j k : Fin rows.length, i < j → j < k → Agree fields (rows.get i) (rows.get k) →
    Agree fields (rows.get i) (rows.get j)

end Row

/-- What a placement says about a data set. -/
def Placement.Holds (d : Spread V) : Placement → Prop
  | .any => True
  | .hashed fields => ∀ i j, ∀ r ∈ d.rows i, ∀ s ∈ d.rows j, Row.Agree fields r s → i = j
  | .replicated => ∀ i, (d.rows i).Perm d.whole

/-- What an arrangement says about a data set: on every instance the records are sorted, and
grouped if a grouping is declared. -/
structure Arrangement.Holds [LT V] (d : Spread V) (a : Arrangement) : Prop where
  sorted : ∀ i, Row.Sorted a.ordering (d.rows i)
  grouped : ∀ fields, a.grouped = some fields → ∀ i, Row.Grouped fields (d.rows i)

/-! ## §2 Records in order -/

namespace Row

variable {r s t : Row V} {fields : FieldSet} {columns : List Nat}

theorem Agree.mono {part : FieldSet} (h : Agree fields r s) (hpart : part.subset fields = true) :
    Agree part r s := fun f hf => h f (FieldSet.subset_iff.1 hpart f hf)

theorem Agree.symm (h : Agree fields r s) : Agree fields s r := fun f hf => (h f hf).symm

theorem Agree.trans (h : Agree fields r s) (h' : Agree fields s t) : Agree fields r t :=
  fun f hf => (h f hf).trans (h' f hf)

/-- Everything is grouped on no columns at all. -/
theorem grouped_of_isEmpty (h : fields.isEmpty = true) (rows : List (Row V)) :
    Grouped fields rows :=
  fun _ _ _ _ _ _ f hf => absurd hf (FieldSet.isEmpty_iff.1 h f)

variable [LinearOrder V]

/-- The columns in front decide first. -/
theorem NotAfter.front : ∀ {front rest : List Nat}, NotAfter r s (front ++ rest) →
    NotAfter r s front
  | [], _, _ => trivial
  | _ :: _, _, .inl hlt => .inl hlt
  | _ :: _, _, .inr ⟨heq, h⟩ => .inr ⟨heq, front h⟩

/-- Only the values in the columns count. -/
theorem notAfter_congr {r' s' : Row V} : ∀ {columns : List Nat}, (∀ f ∈ columns, r f = r' f) →
    (∀ f ∈ columns, s f = s' f) → (NotAfter r s columns ↔ NotAfter r' s' columns)
  | [], _, _ => Iff.rfl
  | f :: fs, hr, hs => by
    have htail : NotAfter r s fs ↔ NotAfter r' s' fs :=
      notAfter_congr (fun g hg => hr g (List.mem_cons_of_mem f hg))
        fun g hg => hs g (List.mem_cons_of_mem f hg)
    simp only [NotAfter, hr f List.mem_cons_self, hs f List.mem_cons_self, htail]

/-- Records of which neither comes after the other are equal. -/
theorem NotAfter.antisymm : ∀ {columns : List Nat}, NotAfter r s columns → NotAfter s r columns →
    ∀ f ∈ columns, r f = s f
  | [], _, _ => by simp
  | f :: fs, h, h' => by
    rcases h with hlt | ⟨heq, h⟩
    · rcases h' with hlt' | ⟨heq', -⟩
      · exact absurd hlt (lt_asymm hlt')
      · exact absurd heq' (ne_of_gt hlt)
    · rcases h' with hlt' | ⟨-, h'⟩
      · exact absurd heq.symm (ne_of_lt hlt')
      · intro g hg
        rcases List.mem_cons.1 hg with rfl | hg
        · exact heq
        · exact h.antisymm h' g hg

theorem Sorted.front {front : List Nat} {rows : List (Row V)} (h : Sorted columns rows)
    (hfront : front <+: columns) : Sorted front rows := by
  obtain ⟨rest, rfl⟩ := hfront
  exact h.imp NotAfter.front

/-- Sorted records are grouped on the columns by which they are sorted: what stands between two
equal records comes neither before the first nor after the second. -/
theorem Sorted.grouped {rows : List (Row V)} (h : Sorted columns rows) :
    Grouped (.ofList columns) rows := by
  intro i j k hij hjk hik f hf
  have hlower : NotAfter (rows.get i) (rows.get j) columns :=
    List.pairwise_iff_getElem.1 h i j i.isLt j.isLt hij
  have hupper : NotAfter (rows.get j) (rows.get k) columns :=
    List.pairwise_iff_getElem.1 h j k j.isLt k.isLt hjk
  have hequal : ∀ g ∈ columns, rows.get k g = rows.get i g :=
    fun g hg => (hik g (FieldSet.mem_ofList.2 hg)).symm
  exact hlower.antisymm ((notAfter_congr (fun _ _ => rfl) hequal).1 hupper) f
    (FieldSet.mem_ofList.1 hf)

end Row

/-! ## §3 Matching is sound -/

/-- Records that are equal on all requested columns are equal on those that data is hashed on. -/
theorem Placement.holds_of_isMetBy {asked actual : Placement} {d : Spread V}
    (h : asked.isMetBy actual = true) (hactual : actual.Holds d) : asked.Holds d := by
  cases asked with
  | any => trivial
  | hashed req =>
    cases actual with
    | any => simp at h
    | replicated => simp at h
    | hashed act =>
      rw [hashed_isMetBy_hashed, Bool.and_eq_true] at h
      exact fun i j r hr s hs hagree => hactual i j r hr s hs (hagree.mono h.2)
  | replicated =>
    cases actual with
    | any => simp [isReplicated] at h
    | hashed act => simp [isReplicated] at h
    | replicated => exact hactual

theorem Arrangement.grouped_of_isGroupedOn [LinearOrder V] {a : Arrangement} {d : Spread V}
    (ha : a.Holds d) {fields : FieldSet} (h : a.isGroupedOn fields = true) (i : Fin d.width) :
    Row.Grouped fields (d.rows i) := by
  unfold isGroupedOn at h
  simp only [Bool.or_eq_true, Bool.and_eq_true, beq_iff_eq] at h
  rcases h with (hempty | hdeclared) | ⟨-, hfront⟩
  · exact Row.grouped_of_isEmpty hempty _
  · exact ha.grouped fields hdeclared i
  · rw [← hfront]
    exact ((ha.sorted i).front (List.take_prefix _ _)).grouped

theorem Arrangement.holds_of_isMetBy [LinearOrder V] {asked actual : Arrangement} {d : Spread V}
    (h : asked.isMetBy actual = true) (hactual : actual.Holds d) : asked.Holds d := by
  unfold isMetBy at h
  rw [Bool.and_eq_true, isSortedOn_iff] at h
  obtain ⟨hsorted, hgrouped⟩ := h
  refine ⟨fun i => (hactual.sorted i).front hsorted, ?_⟩
  intro fields hfields
  rw [hfields] at hgrouped
  exact grouped_of_isGroupedOn hactual hgrouped

/-- A request that is met by what is known of a data set holds of it. -/
theorem Request.isMetBy_sound [LinearOrder V] {r : Request α} {placement : Placement}
    {arrangement : Arrangement} (h : r.isMetBy placement arrangement = true) {d : Spread V}
    (hplacement : placement.Holds d) (harrangement : arrangement.Holds d) :
    r.placement.Holds d ∧ r.arrangement.Holds d := by
  unfold isMetBy at h
  rw [Bool.and_eq_true] at h
  exact ⟨Placement.holds_of_isMetBy h.1 hplacement, Arrangement.holds_of_isMetBy h.2 harrangement⟩

/-- Five records on two instances. -/
def twoInstances : Spread Nat :=
  .dealt fun i : Fin 2 =>
    (if i = 0 then [[2, 5, 0, 1], [2, 5, 9, 4]] else [[1, 3, 0, 0], [1, 5, 7, 2], [3, 5, 0, 0]]).map
      fun values column => values.getD column 0

/-- Data hashed on column 0 and sorted by columns 1, 0 and 3 is hashed and grouped on columns 0
and 1. -/
theorem Request.isMetBy_sound_twoInstances :
    (Request.partitionedAndGrouped (α := Float) (.ofList [0, 1])).isMetBy (.hashed (.ofList [0]))
        (.sorted [1, 0, 3]) = true ∧
      (Placement.hashed (.ofList [0])).Holds twoInstances ∧
      (Arrangement.sorted [1, 0, 3]).Holds twoInstances ∧
      (Placement.hashed (.ofList [0, 1])).Holds twoInstances ∧
      (Arrangement.groupedBy (.ofList [0, 1])).Holds twoInstances := by
  have hmet : (Request.partitionedAndGrouped (α := Float) (.ofList [0, 1])).isMetBy
      (.hashed (.ofList [0])) (.sorted [1, 0, 3]) = true := by decide +kernel
  have hhashed : (Placement.hashed (.ofList [0])).Holds twoInstances := by
    unfold Placement.Holds
    decide
  have hsorted : (Arrangement.sorted [1, 0, 3]).Holds twoInstances := by
    refine ⟨?_, by simp [Arrangement.sorted]⟩
    unfold Row.Sorted
    decide
  obtain ⟨hplacement, harrangement⟩ := Request.isMetBy_sound hmet hhashed hsorted
  exact ⟨hmet, hhashed, hsorted, hplacement, harrangement⟩

/-! ## §4 Matching is no stricter than it has to be -/

namespace Spread

/-- Two records on an instance each. -/
def apart (r s : Row V) : Spread V := .dealt fun i : Fin 2 => if i = 0 then [r] else [s]

/-- Some records on a single instance. -/
def single (rows : List (Row V)) : Spread V := .copied 0 rows

/-- No instance holds more than one record. -/
def AtMostOne (d : Spread V) : Prop := ∀ i, (d.rows i).length ≤ 1

theorem atMostOne_apart (r s : Row V) : (apart r s).AtMostOne := by
  simp [AtMostOne, apart, dealt, Fin.forall_fin_two]

theorem atMostOne_copied (others : Nat) (r : Row V) : (copied others [r]).AtMostOne :=
  fun _ => Nat.le_refl 1

end Spread

theorem Placement.holds_single (placement : Placement) (rows : List (Row V)) :
    placement.Holds (.single rows) := by
  cases placement with
  | any => trivial
  | hashed fields => exact fun i j _ _ _ _ _ => Subsingleton.elim (α := Fin 1) i j
  | replicated => exact fun _ => List.Perm.refl rows

theorem Placement.hashed_holds_apart_iff {fields : FieldSet} {r s : Row V} :
    (hashed fields).Holds (.apart r s) ↔ ¬ Row.Agree fields r s := by
  have hsymm : Row.Agree fields s r ↔ Row.Agree fields r s := ⟨Row.Agree.symm, Row.Agree.symm⟩
  simp [Holds, Spread.apart, Spread.dealt, Fin.forall_fin_two, hsymm]

/-- Neither instance has the record of the other. -/
theorem Placement.not_replicated_holds_apart (r s : Row V) :
    ¬ replicated.Holds (.apart r s) := fun h => by
  simpa [Spread.apart, Spread.dealt, List.finRange_succ] using (h (0 : Fin 2)).length_eq

/-- The copies of a record are equal on all columns and lie on several instances. -/
theorem Placement.not_hashed_holds_copied (fields : FieldSet) (r : Row V) :
    ¬ (hashed fields).Holds (.copied 1 [r]) := by
  intro h
  have hsame := h (0 : Fin 2) (1 : Fin 2) r List.mem_cons_self r List.mem_cons_self fun _ _ => rfl
  exact Fin.zero_ne_one hsame

/-- A single record on an instance has no order to keep. -/
theorem Arrangement.holds_of_atMostOne [LinearOrder V] (a : Arrangement) {d : Spread V}
    (hd : d.AtMostOne) : a.Holds d := by
  refine ⟨fun i => ?_, fun fields _ i j k l hjk => ?_⟩
  · have hsorted : ∀ {rows : List (Row V)}, rows.length ≤ 1 → Row.Sorted a.ordering rows
      | [], _ => List.Pairwise.nil
      | [r], _ => List.pairwise_singleton _ r
    exact hsorted (hd i)
  · have hk := Nat.lt_of_lt_of_le k.isLt (hd i)
    have hjk : j.1 < k.1 := hjk
    omega

/-- Where a placement is turned down, two instances with a record each show why. -/
theorem Placement.exists_atMostOne [Nontrivial V] {asked actual : Placement}
    (hactual : ∀ fields, actual = .hashed fields → fields.isEmpty = false)
    (h : asked.isMetBy actual = false) :
    ∃ d : Spread V, d.AtMostOne ∧ actual.Holds d ∧ ¬ asked.Holds d := by
  obtain ⟨a, b, hab⟩ := exists_pair_ne V
  -- Records that differ in a single column.
  have hdiffer : ∀ (fields : FieldSet) (f : Nat), Row.Agree fields (fun _ => a)
      (Function.update (fun _ => a) f b) ↔ f ∉ fields := by
    intro fields f
    constructor
    · intro hagree hf
      exact hab (by simpa using hagree f hf)
    · intro hf g hg
      rw [Function.update_of_ne (ne_of_mem_of_not_mem hg hf)]
  have hapart : ∀ {fields : FieldSet} {f : Nat}, f ∈ fields →
      (hashed fields).Holds (.apart (fun _ => a) (Function.update (fun _ => a) f b)) :=
    fun {fields f} hf => hashed_holds_apart_iff.2 fun h => (hdiffer fields f).1 h hf
  have hmember : ∀ fields, actual = .hashed fields → ∃ f, f ∈ fields := by
    intro fields hfields
    by_contra hnone
    push Not at hnone
    have hempty := hactual fields hfields
    rw [FieldSet.isEmpty_iff.2 hnone] at hempty
    simp at hempty
  cases asked with
  | any => simp at h
  | hashed req =>
    cases actual with
    | any => exact ⟨_, Spread.atMostOne_copied 1 fun _ => a, trivial, not_hashed_holds_copied req _⟩
    | replicated =>
      exact ⟨_, Spread.atMostOne_copied 1 fun _ => a, fun _ => List.Perm.refl _,
        not_hashed_holds_copied req _⟩
    | hashed act =>
      have hpart : ∃ f ∈ act, f ∉ req := by
        rw [hashed_isMetBy_hashed, hactual act rfl, Bool.not_false, Bool.true_and] at h
        by_contra hall
        push Not at hall
        rw [FieldSet.subset_iff.2 hall] at h
        simp at h
      obtain ⟨f, hact, hreq⟩ := hpart
      refine ⟨_, Spread.atMostOne_apart _ _, hapart hact, ?_⟩
      exact fun h => hashed_holds_apart_iff.1 h ((hdiffer req f).2 hreq)
  | replicated =>
    cases actual with
    | any =>
      exact ⟨_, Spread.atMostOne_apart (fun _ => a) fun _ => b, trivial,
        not_replicated_holds_apart _ _⟩
    | replicated => simp [isReplicated] at h
    | hashed act =>
      obtain ⟨f, hf⟩ := hmember act rfl
      exact ⟨_, Spread.atMostOne_apart _ _, hapart hf, not_replicated_holds_apart _ _⟩

namespace Row

variable [LinearOrder V] {r s : Row V} {fields : FieldSet}

/-- Records that are equal in the columns in front are compared by the others. -/
theorem notAfter_append : ∀ {front rest : List Nat}, (∀ f ∈ front, r f = s f) →
    NotAfter r s rest → NotAfter r s (front ++ rest)
  | [], _, _, h => h
  | f :: _, _, heq, h => .inr ⟨heq f List.mem_cons_self,
      notAfter_append (fun g hg => heq g (List.mem_cons_of_mem f hg)) h⟩

/-- A record that is smaller or equal in every column does not come after the other. -/
theorem notAfter_of_le : ∀ {columns : List Nat}, (∀ f ∈ columns, r f ≤ s f) → NotAfter r s columns
  | [], _ => trivial
  | f :: _, h => (lt_or_eq_of_le (h f List.mem_cons_self)).imp id fun heq =>
      ⟨heq, notAfter_of_le fun g hg => h g (List.mem_cons_of_mem f hg)⟩

/-- Unless some columns stand in front of others, records can be in the order of the others and not
in theirs. -/
theorem exists_notAfter {a b : V} (hab : a < b) : ∀ {asked actual : List Nat}, asked.Nodup →
    actual.Nodup → ¬ asked <+: actual →
      ∃ r s : Row V, NotAfter r s actual ∧ ¬ NotAfter r s asked
  | [], actual, _, _, h => absurd (List.nil_prefix) h
  | _ :: _, [], _, _, _ =>
    ⟨fun _ => b, fun _ => a, trivial, fun h =>
      h.elim (lt_asymm hab) fun h => absurd h.1 (ne_of_gt hab)⟩
  | f :: fs, g :: gs, hasked, hactual, h => by
    obtain ⟨hf, hfs⟩ := List.nodup_cons.1 hasked
    obtain ⟨hg, hgs⟩ := List.nodup_cons.1 hactual
    by_cases hfg : f = g
    · subst hfg
      obtain ⟨r, s, hrs, hnot⟩ := exists_notAfter hab hfs hgs fun hprefix =>
        h ((List.prefix_cons_inj f).2 hprefix)
      -- Let the records be equal in the first column.
      have hsame : ∀ (x : Row V) {columns : List Nat}, f ∉ columns →
          ∀ c ∈ columns, x c = Function.update x f a c := fun x columns hout c hc =>
        (Function.update_of_ne (ne_of_mem_of_not_mem hc hout) a x).symm
      refine ⟨Function.update r f a, Function.update s f a, .inr ⟨by simp, ?_⟩, ?_⟩
      · exact (notAfter_congr (hsame r hg) (hsame s hg)).1 hrs
      · rintro (hlt | ⟨-, hle⟩)
        · simp at hlt
        · exact hnot ((notAfter_congr (hsame r hf) (hsame s hf)).2 hle)
    · refine ⟨Function.update (fun _ => a) f b, Function.update (fun _ => a) g b, .inl ?_, ?_⟩
      · rw [Function.update_of_ne (Ne.symm hfg), Function.update_self]
        exact hab
      · rintro (hlt | ⟨heq, -⟩)
        · rw [Function.update_self, Function.update_of_ne hfg] at hlt
          exact lt_asymm hab hlt
        · rw [Function.update_self, Function.update_of_ne hfg] at heq
          exact ne_of_gt hab heq

/-- Of a list of columns without repeats that does not begin with all of a set some are missing
before the first one from outside the set. -/
theorem exists_missing {columns : List Nat} (hnodup : columns.Nodup)
    (h : ¬ (fields.size ≤ columns.length ∧ FieldSet.ofList (columns.take fields.size) = fields)) :
    ∃ f ∈ fields, ∃ front rest, columns = front ++ rest ∧ (∀ c ∈ front, c ∈ fields ∧ c ≠ f) ∧
      ∀ c ∈ rest.head?, c ∉ fields := by
  let front := columns.takeWhile (· ∈ fields)
  have hfront : ∀ c ∈ front, c ∈ fields := fun c hc => by
    simpa using List.mem_takeWhile_imp hc
  have happend : columns = front ++ columns.dropWhile (· ∈ fields) :=
    List.takeWhile_append_dropWhile.symm
  have hmissing : ∃ f ∈ fields, f ∉ front := by
    by_contra hall
    push Not at hall
    have hset : FieldSet.ofList front = fields := by
      refine FieldSet.ext fun c => ?_
      rw [FieldSet.mem_ofList]
      exact ⟨hfront c, hall c⟩
    have hsize : front.length = fields.size := by
      refine List.Perm.length_eq ((List.perm_ext_iff_of_nodup ?_ ?_).2 fun c =>
        ⟨hfront c, hall c⟩)
      · exact hnodup.sublist (List.takeWhile_sublist _)
      · exact fields.ascending.imp fun hlt => Nat.ne_of_lt hlt
    refine h ⟨?_, ?_⟩
    · rw [← hsize, happend, List.length_append]
      exact Nat.le_add_right _ _
    · rw [← hsize, happend, List.take_left]
      exact hset
  obtain ⟨f, hf, hout⟩ := hmissing
  refine ⟨f, hf, front, _, happend, fun c hc => ⟨hfront c hc, ne_of_mem_of_not_mem hc hout⟩, ?_⟩
  intro c hc hmem
  have hfalse := List.head?_dropWhile_not (· ∈ fields) columns
  rw [Option.mem_def.1 hc] at hfalse
  simp [hmem] at hfalse

/-- Unless some columns stand in front, in any order, records can be sorted and not be grouped on
them. -/
theorem exists_sorted_not_grouped [Nontrivial V] {columns : List Nat} (hnodup : columns.Nodup)
    (h : ¬ (fields.size ≤ columns.length ∧ FieldSet.ofList (columns.take fields.size) = fields)) :
    ∃ rows : List (Row V), Sorted columns rows ∧ ¬ Grouped fields rows := by
  obtain ⟨a, b, hab⟩ := exists_pair_lt V
  obtain ⟨f, hf, front, rest, rfl, hfront, hrest⟩ := exists_missing hnodup h
  -- The first and the last record are equal on the set and the second one is not. The first
  -- column from outside the set tells the first one from the others, the missing one the rest.
  let first : Row V := fun c => if c = f then b else a
  let second : Row V := fun c => if c ∈ fields then a else b
  let third : Row V := fun c => if c = f then b else if c ∈ fields then a else b
  have hless : ∀ x : Row V, (∀ c ∈ fields, c ≠ f → x c = a) → (∀ c ∉ fields, x c = b) →
      NotAfter first x (front ++ rest) := by
    intro x hin hout
    refine notAfter_append (fun c hc => ?_) ?_
    · simp [first, hfront c hc, hin c (hfront c hc).1 (hfront c hc).2]
    · match rest, hrest with
      | [], _ => trivial
      | c :: cs, hrest =>
        have hc : c ∉ fields := hrest c rfl
        have hne : c ≠ f := (ne_of_mem_of_not_mem hf hc).symm
        exact .inl (by simpa [first, hne, hout c hc] using hab)
  refine ⟨[first, second, third], ?_, ?_⟩
  · refine List.pairwise_cons.2 ⟨?_, List.pairwise_pair.2 (notAfter_of_le fun c _ => ?_)⟩
    · intro x hx
      rcases List.mem_pair.1 hx with rfl | rfl
      · exact hless _ (by simp_all [second]) (by simp_all [second])
      · refine hless _ (by simp_all [third]) fun c hc => ?_
        simp [third, hc]
    · by_cases hcf : c = f
      · simp [second, third, hcf, hf, le_of_lt hab]
      · simp [second, third, hcf]
  · intro hgrouped
    have hbetween := hgrouped ⟨0, by simp⟩ ⟨1, by simp⟩ ⟨2, by simp⟩ (by simp) (by simp) (by
      intro c hc
      by_cases hcf : c = f <;> simp [first, third, hcf, hc]) f hf
    simp [first, second, hf] at hbetween
    exact ne_of_gt hab hbetween

end Row

/-- Where an arrangement is turned down, some records on a single instance show why. -/
theorem Arrangement.exists_single [LinearOrder V] [Nontrivial V] {asked actual : Arrangement}
    (hasked : asked.ordering.Nodup) (hactual : actual.ordering.Nodup)
    (hgrouped : actual.grouped = none) (h : asked.isMetBy actual = false) :
    ∃ rows : List (Row V), actual.Holds (.single rows) ∧ ¬ asked.Holds (.single rows) := by
  have hsingle : ∀ rows : List (Row V), Row.Sorted actual.ordering rows →
      actual.Holds (.single rows) := fun rows hrows =>
    ⟨fun _ => hrows, by simp [hgrouped]⟩
  by_cases hprefix : asked.ordering <+: actual.ordering
  · have hfields : ∃ fields, asked.grouped = some fields ∧ actual.isGroupedOn fields = false := by
      unfold isMetBy at h
      rw [isSortedOn_iff.2 hprefix, Bool.true_and] at h
      split at h
      · simp at h
      · rename_i fields heq
        exact ⟨fields, heq, h⟩
    obtain ⟨fields, hfields, hnot⟩ := hfields
    simp only [isGroupedOn, hgrouped, Bool.or_eq_false_iff, Bool.and_eq_false_iff] at hnot
    have hfront : ¬ (fields.size ≤ actual.ordering.length ∧
        FieldSet.ofList (actual.ordering.take fields.size) = fields) := by
      rintro ⟨hsize, hset⟩
      rcases hnot.2 with hnot | hnot
      · simp [hsize] at hnot
      · simp [hset] at hnot
    obtain ⟨rows, hsorted, hrows⟩ := Row.exists_sorted_not_grouped (V := V) hactual hfront
    exact ⟨rows, hsingle rows hsorted, fun hholds => hrows (hholds.grouped fields hfields (0 : Fin 1))⟩
  · obtain ⟨a, b, hab⟩ := exists_pair_lt V
    obtain ⟨r, s, hle, hnot⟩ := Row.exists_notAfter hab hasked hactual hprefix
    refine ⟨[r, s], hsingle _ (List.pairwise_pair.2 hle), fun hholds => ?_⟩
    exact hnot (List.pairwise_pair.1 (hholds.sorted (0 : Fin 1)))

/-- Matching is exact for data that is hashed on some column if it is hashed, sorted at most once
by each column, and not grouped otherwise: a request is met exactly if it holds of all data sets
that have the known properties. -/
theorem Request.isMetBy_iff_holds [LinearOrder V] [Nontrivial V] {r : Request α}
    {placement : Placement} {arrangement : Arrangement}
    (hplacement : ∀ fields, placement = .hashed fields → fields.isEmpty = false)
    (hgrouped : arrangement.grouped = none) (hordering : arrangement.ordering.Nodup)
    (hasked : r.arrangement.ordering.Nodup) :
    r.isMetBy placement arrangement = true ↔ ∀ d : Spread V, placement.Holds d →
      arrangement.Holds d → r.placement.Holds d ∧ r.arrangement.Holds d := by
  unfold isMetBy
  rw [Bool.and_eq_true]
  constructor
  · rintro ⟨hplaced, harranged⟩ d hp ha
    exact ⟨Placement.holds_of_isMetBy hplaced hp, Arrangement.holds_of_isMetBy harranged ha⟩
  · intro hall
    constructor
    · by_contra hnot
      obtain ⟨d, hd, hholds, hfails⟩ := Placement.exists_atMostOne (V := V) hplacement
        (Bool.not_eq_true _ ▸ hnot)
      exact hfails (hall d hholds (arrangement.holds_of_atMostOne hd)).1
    · by_contra hnot
      obtain ⟨rows, hholds, hfails⟩ := Arrangement.exists_single (V := V) hasked hordering hgrouped
        (Bool.not_eq_true _ ▸ hnot)
      exact hfails (hall _ (placement.holds_single rows) hholds).2

end FlowPlanner
