/-
# How many have a component

The number of components of a kind (`World.census`) and what the changes of a world
make of it: a write adds one if there was none and a value is written, who goes
takes theirs along, and nothing else has a part in it. Each change is told as a
balance, the components that were there on one side and those that are there on
the other, so that no number is taken from a smaller one.

Key definition: `World.census`.
Key theorems: `World.census_write_self`, `World.census_leave`.
-/
import EntityWorld.Proofs.Columns
import EntityWorld.Proofs.Values
import Mathlib.Tactic

namespace EntityWorld

/-! ### Components of a kind -/

variable {κ : Type} [Family κ] [DecidableEq κ]

namespace World

variable {w : World κ} {k k' : κ} {e : Handle} {pool : SlotPool}

/-- The number of components of a kind. -/
def census (w : World κ) (k : κ) : Nat := ((w.column? k).map (·.count)).getD 0

theorem census_of_column? {c : Column (Value k)} (hc : w.column? k = some c) :
    w.census k = c.count := by
  rw [census, hc]
  rfl

theorem census_rework_of_ne (f : Column (Value k) → Column (Value k)) (hk : k' ≠ k) :
    (w.rework k f).census k' = w.census k' := by
  unfold census
  rw [column?_rework_of_ne f hk]

theorem census_rework_map (f : Value k → Value k) :
    (w.rework k (·.map f)).census k = w.census k := by
  unfold census
  rw [column?_rework]
  cases w.column? k with
  | none => rfl
  | some c => exact c.count_map f

theorem contains_of_column? (he : w.isAlive e) {c : Column (Value k)} (hc : w.column? k = some c) :
    c.contains e.slot = (w.get? k e).isSome := by
  rw [get?, if_pos he, hc]
  rfl

theorem census_write_self (hk : w.isRegistered k) (he : w.isAlive e) (o : Option (Value k)) :
    (w.write k e o).census k + (if (w.get? k e).isSome then 1 else 0) =
      w.census k + if o.isSome then 1 else 0 := by
  obtain ⟨c, hc⟩ := Option.isSome_iff_exists.mp (isRegistered_iff_column?.mp hk)
  have hnew : (w.write k e o).column? k = some (c.put e.slot o) := by
    rw [column?_write, hc, Option.map_some]
  rw [census_of_column? hnew, census_of_column? hc, ← contains_of_column? he hc]
  exact c.count_put e.slot o

theorem census_write_of_ne (e : Handle) (o : Option (Value k)) (hk : k' ≠ k) :
    (w.write k e o).census k' = w.census k' := census_rework_of_ne _ hk

/-- Who goes takes along what they had. -/
theorem census_leave (he : w.pool.Leaves e pool) :
    (w.leave e pool).census k + (if (w.get? k e).isSome then 1 else 0) = w.census k := by
  cases hc : w.column? k with
  | none =>
    have hnone : w.get? k e = none :=
      get?_eq_none_of_not_isRegistered fun hk => by
        rw [isRegistered_iff_column?, hc] at hk
        cases hk
    rw [census, column?_leave, census, hc, hnone]
    rfl
  | some c =>
    have hnew : (w.leave e pool).column? k = some (c.erase e.slot) := by
      rw [column?_leave, hc]
      rfl
    rw [census_of_column? hnew, census_of_column? hc, ← contains_of_column? he.alive hc]
    exact c.count_erase e.slot

end World
end EntityWorld
