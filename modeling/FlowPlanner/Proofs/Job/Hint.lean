/-
FlowPlanner.Proofs.Job.Hint — what is left of an operator's hints when they are understood.

The word that counts for an input position is its own one, else the one for all
(`Operator.shipWord?`). If the hints of an operator are understood at all, they
say what the words say and nothing else (`Operator.understood_of_resolveHints`), so
a connection that carries the pin of its position is shipped as the word for the
position says (`Operator.Understood.forcedShip`).
-/
import FlowPlanner.Graph
import FlowPlanner.Proofs.Job.Order
import Mathlib.Data.List.GetD

namespace FlowPlanner

/-! ## §1 Words -/

/-- The ship strategy that a hint's word stands for, at an input with these key columns. -/
def Ship.named? (keys : List Nat) : String → Option Ship
  | "forward" => some .forward
  | "broadcast" => some .broadcast
  | "repartition" => some (.partitionHash (.ofList keys))
  | _ => none

/-- The driver of a join that a hint's word stands for. -/
def Driver.joining? : String → Option Driver
  | "hash_build_first" => some .hybridHashBuildFirst
  | "hash_build_second" => some .hybridHashBuildSecond
  | "sort_merge" => some .sortMerge
  | _ => none

namespace Operator

/-- The hint under a key, without the white space around it. -/
def word? (op : Operator) (key : String) : Option String := (op.hints.find? key).map Text.trim

/-- The hint that is about one input position only. -/
def ownShipKey (position : Nat) : String :=
  if position == 0 then "ship_strategy.first" else "ship_strategy.second"

/-- The word that decides how an input position is shipped: its own hint, else the hint for all. -/
def shipWord? (op : Operator) (position : Nat) : Option String :=
  (op.word? (ownShipKey position)).or (op.word? "ship_strategy")

/-- Hints that say what the words of an operator say. -/
structure Understood (op : Operator) (hints : ResolvedHints) : Prop where
  pins : ∀ i < op.kind.arity, ∃ pin : Option Pin,
    hints.pins.getD i .unset = pin.getD .unset ∧ (op.shipWord? i).map Pin.ofText? = pin.map some
  driver : (op.word? "local_strategy").map DriverHint.ofName? = hints.driver.map some
  fits : ∀ hint, hints.driver = some hint → hint.appliesTo op.kind = true

end Operator

/-- A connection pinned as a word says is shipped as the word says. -/
theorem Connection.exists_named?_of_ofText? {c : Connection} {word : String}
    (h : Pin.ofText? word = some c.pin) :
    ∃ ship, Ship.named? c.keys word = some ship ∧ c.forcedShip = some ship := by
  unfold Connection.forcedShip
  unfold Pin.ofText? at h
  split at h
  · rw [← Option.some.inj h]
    exact ⟨.forward, rfl, rfl⟩
  · rw [← Option.some.inj h]
    exact ⟨.broadcast, rfl, rfl⟩
  · rw [← Option.some.inj h]
    exact ⟨.partitionHash (.ofList c.keys), rfl, rfl⟩
  · simp at h

/-! ## §2 Understanding -/

namespace Operator

variable {op : Operator} {hints : ResolvedHints}

theorem map_word?_of_shipHint {key : String} {pin : Option Pin}
    (h : op.shipHint key = .ok pin) : (op.word? key).map Pin.ofText? = pin.map some := by
  unfold shipHint at h
  unfold word?
  cases hfind : op.hints.find? key with
  | none =>
    rw [hfind] at h
    rw [← Except.ok.inj h]
    rfl
  | some value =>
    rw [hfind] at h
    dsimp only at h
    cases hpin : Pin.ofText? (Text.trim value) with
    | none => simp [hpin] at h
    | some pin' =>
      rw [hpin] at h
      rw [← Except.ok.inj h, Option.map_some, Option.map_some, Option.map_some, hpin]

theorem map_word?_of_driverHint {hint : Option DriverHint} (h : op.driverHint = .ok hint) :
    (op.word? "local_strategy").map DriverHint.ofName? = hint.map some ∧
      ∀ d, hint = some d → d.appliesTo op.kind = true := by
  unfold driverHint at h
  unfold word?
  cases hfind : op.hints.find? "local_strategy" with
  | none =>
    rw [hfind] at h
    rw [← Except.ok.inj h]
    exact ⟨rfl, by simp⟩
  | some value =>
    rw [hfind] at h
    dsimp only at h
    cases hname : DriverHint.ofName? (Text.trim value) with
    | none => simp [hname] at h
    | some d =>
      rw [hname] at h
      dsimp only at h
      split at h
      · rename_i hfits
        rw [← Except.ok.inj h, Option.map_some, Option.map_some, Option.map_some, hname]
        refine ⟨rfl, ?_⟩
        rintro _ ⟨rfl⟩
        exact hfits
      · simp at h

theorem getD_of_pins {both first second : Option Pin} {pins : List Pin}
    (h : op.pins both first second = .ok pins) {i : Nat} (hi : i < op.kind.arity) :
    pins.getD i .unset = pinAt both first second i := by
  have hpins := forall₂_of_mapM_ok h
  obtain ⟨hlen, hget⟩ := List.forall₂_iff_get.1 hpins
  rw [List.length_range] at hlen
  have hone := hget i (by rwa [List.length_range]) (hlen ▸ hi)
  dsimp only at hone
  split at hone
  · simp at hone
  · rw [List.get_eq_getElem, List.getElem_range] at hone
    rw [List.getD_eq_getElem _ _ (hlen ▸ hi), Except.ok.inj hone]
    rfl

/-- All hints of an operator, from their parts. -/
theorem understood_of_resolveHints (h : op.resolveHints = .ok hints) : op.Understood hints := by
  unfold resolveHints at h
  obtain ⟨both, hboth, h⟩ := exists_ok_of_bind h
  obtain ⟨first, hfirst, h⟩ := exists_ok_of_bind h
  obtain ⟨second, hsecond, h⟩ := exists_ok_of_bind h
  split at h
  · simp at h
  split at h
  · simp at h
  obtain ⟨pins, hpins, h⟩ := exists_ok_of_bind h
  obtain ⟨parallelism, -, h⟩ := exists_ok_of_bind h
  obtain ⟨memory, -, h⟩ := exists_ok_of_bind h
  obtain ⟨driver, hdriver, h⟩ := exists_ok_of_bind h
  obtain rfl := Except.ok.inj h
  obtain ⟨hword, hfits⟩ := map_word?_of_driverHint hdriver
  refine ⟨?_, hword, hfits⟩
  intro i hi
  refine ⟨(if i == 0 then first else second).or both, getD_of_pins hpins hi, ?_⟩
  have hown : (op.word? (ownShipKey i)).map Pin.ofText? =
      (if i == 0 then first else second).map some := by
    unfold ownShipKey
    split
    · exact map_word?_of_shipHint hfirst
    · exact map_word?_of_shipHint hsecond
  unfold shipWord?
  rw [Option.map_or, hown, map_word?_of_shipHint hboth, Option.map_or]

/-- A connection that carries the pin and the keys of its position is shipped as the word for the
position says, and is not forced if there is no word. -/
theorem Understood.forcedShip (h : op.Understood hints) {c : Connection}
    (hposition : c.position < op.kind.arity) (hpin : c.pin = hints.pins.getD c.position .unset)
    (hkeys : c.keys = op.keysOf c.position) :
    (op.shipWord? c.position).map (Ship.named? (op.keysOf c.position)) =
      c.forcedShip.map some := by
  obtain ⟨pin, hpins, hword⟩ := h.pins c.position hposition
  rw [hpins] at hpin
  cases pin with
  | none =>
    have hnone : op.shipWord? c.position = none := Option.map_eq_none_iff.1 hword
    rw [hnone]
    unfold Connection.forcedShip
    rw [hpin]
    rfl
  | some pin =>
    obtain ⟨word, hsome, hname⟩ := Option.map_eq_some_iff.1 hword
    rw [← show c.pin = pin from hpin] at hname
    obtain ⟨ship, hnamed, hforced⟩ := Connection.exists_named?_of_ofText? hname
    rw [hsome, ← hkeys, Option.map_some, hnamed, hforced, Option.map_some]

end Operator

end FlowPlanner
