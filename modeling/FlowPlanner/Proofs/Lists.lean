/-
FlowPlanner.Proofs.Lists — what is used of lists besides the library.

Plans go along with nodes, channels with connections and feeds with input positions,
entry by entry; nodes are found by their labels.
-/
import Mathlib.Data.List.Forall2
import Mathlib.Data.List.Nodup

namespace FlowPlanner

/-! ## §1 Lists side by side -/

variable {β γ : Type} {R : β → γ → Prop} {xs : List β} {ys : List γ}

/-- What is paired with an entry of a list. -/
theorem getElem?_of_forall₂ (h : List.Forall₂ R xs ys) {i : Nat} {x : β} (hx : xs[i]? = some x) :
    ∃ y, ys[i]? = some y ∧ R x y := by
  obtain ⟨hlen, hR⟩ := List.forall₂_iff_get.1 h
  obtain ⟨hi, rfl⟩ := List.getElem?_eq_some_iff.1 hx
  have hi' : i < ys.length := hlen ▸ hi
  exact ⟨ys[i], List.getElem?_eq_getElem hi', hR i hi hi'⟩

theorem exists_of_forall₂_left (h : List.Forall₂ R xs ys) {x : β} (hx : x ∈ xs) :
    ∃ y ∈ ys, R x y := by
  obtain ⟨i, hi⟩ := List.mem_iff_getElem?.1 hx
  obtain ⟨y, hy, hR⟩ := getElem?_of_forall₂ h hi
  exact ⟨y, List.mem_of_getElem? hy, hR⟩

/-- Two lists that go along with a third one go along with each other. -/
theorem forall₂_of_left {δ : Type} {S : β → δ → Prop} {T : δ → γ → Prop} {zs : List δ}
    (h : List.Forall₂ R xs ys) (h' : List.Forall₂ S xs zs)
    (hT : ∀ x y z, R x y → S x z → T z y) : List.Forall₂ T zs ys := by
  induction h generalizing zs with
  | nil =>
    cases h'
    exact .nil
  | cons hR _ ih =>
    cases h' with
    | cons hS h' => exact .cons (hT _ _ _ hR hS) (ih h')

/-- Pairs may be related with regard to where their right sides come from. -/
theorem forall₂_imp_of_mem {S : β → γ → Prop} (h : List.Forall₂ R xs ys)
    (himp : ∀ x, ∀ y ∈ ys, R x y → S x y) : List.Forall₂ S xs ys := by
  have hmem : List.Forall₂ (fun y x => y ∈ ys ∧ R x y) ys xs :=
    (List.forall₂_and_left _ _).2 ⟨fun _ hy => hy, h.flip⟩
  exact (hmem.imp fun y x hyx => himp x y hyx.1 hyx.2).flip

/-- Entries may be compared through what they go along with, where no two go along with the same. -/
theorem pairwise_congr_of_forall₂ {P Q : β → β → Prop} (h : List.Forall₂ R xs ys) (hys : ys.Nodup)
    (hPQ : ∀ a b, ∀ c ∈ ys, ∀ d ∈ ys, c ≠ d → R a c → R b d → (P a b ↔ Q a b)) :
    xs.Pairwise P ↔ xs.Pairwise Q := by
  induction h with
  | nil => simp
  | @cons a c xs ys hac h ih =>
    obtain ⟨hc, hys⟩ := List.nodup_cons.1 hys
    have hhead : ∀ b ∈ xs, (P a b ↔ Q a b) := by
      intro b hb
      obtain ⟨d, hd, hbd⟩ := exists_of_forall₂_left h hb
      refine hPQ a b c List.mem_cons_self d (List.mem_cons_of_mem c hd) ?_ hac hbd
      rintro rfl
      exact hc hd
    rw [List.pairwise_cons, List.pairwise_cons, ih hys fun a b e he d hd =>
      hPQ a b e (List.mem_cons_of_mem c he) d (List.mem_cons_of_mem c hd)]
    exact and_congr_left fun _ => forall₂_congr hhead

/-- If every entry is made into one that goes along with it, nothing is left out. -/
theorem forall₂_filterMap {f : β → Option γ} {T : γ → β → Prop} : ∀ {xs : List β},
    (∀ x ∈ xs, ∃ y, f x = some y ∧ T y x) → List.Forall₂ T (xs.filterMap f) xs
  | [], _ => .nil
  | x :: xs, h => by
    obtain ⟨y, hy, hT⟩ := h x List.mem_cons_self
    rw [List.filterMap_cons_some hy]
    exact .cons hT (forall₂_filterMap fun z hz => h z (List.mem_cons_of_mem x hz))

theorem filterMap_getElem?_range (xs : List β) : ∀ n : Nat,
    (List.range n).filterMap (xs[·]?) = xs.take n
  | 0 => rfl
  | n + 1 => by
    rw [List.range_succ, List.filterMap_append, filterMap_getElem?_range xs n, List.take_add_one]
    cases h : xs[n]? <;> simp [h]

/-! ## §2 Labels -/

/-- An entry is found by a label that no other entry has. -/
theorem findIdx?_eq_of_nodup {β γ : Type} [DecidableEq γ] {f : β → γ} {xs : List β}
    (h : (xs.map f).Nodup) {i : Nat} {x : β} (hx : xs[i]? = some x) :
    xs.findIdx? (fun y => f y == f x) = some i := by
  obtain ⟨hi, rfl⟩ := List.getElem?_eq_some_iff.1 hx
  refine List.findIdx?_eq_some_iff_getElem.2 ⟨hi, by simp, ?_⟩
  intro j hj heq
  have hlt : j < (xs.map f).length := by
    rw [List.length_map]
    exact Nat.lt_trans hj hi
  have hget : (xs.map f)[j]? = (xs.map f)[i]? := by
    rw [List.getElem?_map, List.getElem?_map, hx,
      List.getElem?_eq_getElem (Nat.lt_trans hj hi)]
    exact congrArg some (beq_iff_eq.1 heq)
  exact absurd ((List.getElem?_inj hlt h).1 hget) (Nat.ne_of_lt hj)

/-- A list without repeats that holds one thing only. -/
theorem eq_singleton_of_nodup {β : Type} {xs : List β} (h : xs.Nodup) {x : β} (hx : x ∈ xs)
    (hall : ∀ y ∈ xs, y = x) : xs = [x] := by
  have hrep : xs = List.replicate xs.length x := List.eq_replicate_iff.2 ⟨rfl, hall⟩
  rw [hrep] at h
  have hle := List.nodup_replicate.1 h
  have hpos := List.length_pos_of_mem hx
  rw [hrep, show xs.length = 1 by omega]
  rfl

/-- A label that occurs at most once, and occurs, belongs to one entry. -/
theorem existsUnique_of_filterMap {β γ : Type} [Inhabited β] {f : β → Option γ} {xs : Array β}
    (h : (xs.toList.filterMap f).Nodup) {x : γ} (hx : x ∈ xs.toList.filterMap f) :
    ∃! n, n < xs.size ∧ f (xs.getD n default) = some x := by
  obtain ⟨b, hb, hfb⟩ := List.mem_filterMap.1 hx
  obtain ⟨n, hn, rfl⟩ := List.mem_iff_getElem.1 hb
  rw [Array.length_toList] at hn
  rw [List.Nodup, List.pairwise_filterMap, List.pairwise_iff_getElem] at h
  refine ⟨n, ⟨hn, by simpa [Array.getD, hn] using hfb⟩, ?_⟩
  rintro m ⟨hm, hfm⟩
  rw [Array.getElem_toList] at hfb
  rw [Array.getD_eq_getD_getElem?, Array.getElem?_eq_getElem hm, Option.getD_some] at hfm
  rcases Nat.lt_trichotomy m n with hlt | heq | hlt
  · exact absurd rfl (h m n hm hn hlt x hfm x hfb)
  · exact heq
  · exact absurd rfl (h n m hn hm hlt x hfb x hfm)

end FlowPlanner
