/-
# What is read of a column

A column is read in three ways: the value at a position, the list of the values that
are there, with their positions, and the number of these. The second lists each
position that has a value once, ascending (`Column.map_fst_present`), and the third is
its length (`Column.length_present`). What the operations do to the number is told as a
balance, what was at the position on one side and what is there on the other.

Key theorems: `Column.eq_of_get?_eq`, `Column.present_eq`, `Column.mem_present`,
`Column.length_present`, `Column.count_put`.
-/
import EntityWorld.Column
import Mathlib.Tactic

namespace EntityWorld.Column

variable {α : Type}

/-- The values and the number of positions are all there is to a column. -/
theorem eq_of_get?_eq {c c' : Column α} (hs : c.size = c'.size) (hg : ∀ i, c.get? i = c'.get? i) :
    c = c' := by
  have hslots : c.slots = c'.slots := by
    refine Array.ext hs fun i hi hi' => ?_
    have h := hg i
    simpa [get?, hi, hi'] using h
  cases c
  cases c'
  exact congrArg _ hslots

/-! ### Whether a position has a value -/

section Contains

variable (c : Column α) (i j : Nat)

theorem contains_put (o : Option α) :
    (c.put i o).contains j = if j = i then o.isSome else c.contains j := by
  unfold contains
  rw [get?_put]
  split <;> rfl

theorem contains_erase : (c.erase i).contains j = if j = i then false else c.contains j := by
  unfold contains
  rw [get?_erase]
  split <;> rfl

theorem contains_modify (f : α → α) : (c.modify i f).contains j = c.contains j := by
  unfold contains
  rw [get?_modify]
  split
  · next h =>
    rw [h, Option.isSome_map]
  · rfl

theorem contains_map (f : α → α) : (c.map f).contains j = c.contains j := by
  unfold contains
  rw [get?_map, Option.isSome_map]

end Contains

/-! ### The list of values -/

variable (c : Column α)

theorem present_eq : c.present = (List.range c.size).filterMap fun i => (c.get? i).map (i, ·) := by
  have hz : c.slots.toList.zipIdx =
      (List.range c.size).map fun i => (c.slots[i]?.getD none, i) := by
    refine List.ext_getElem (by simp [size]) fun i hi hi' => ?_
    have hlt : i < c.slots.size := by simpa using hi
    simp [hlt]
  rw [present, hz, List.filterMap_map]
  refine List.filterMap_congr fun i hi => ?_
  have hlt : i < c.slots.size := List.mem_range.mp hi
  simp [get?, hlt]

theorem map_fst_present :
    c.present.map (·.1) = (List.range c.size).filter fun i => (c.get? i).isSome := by
  rw [present_eq, List.map_filterMap, ← List.filterMap_eq_filter]
  refine List.filterMap_congr fun i _ => ?_
  cases h : c.get? i <;> simp [Option.guard, h]

/-- Each position is listed once. -/
theorem nodup_present : (c.present.map (·.1)).Nodup := by
  rw [map_fst_present]
  exact List.nodup_range.filter _

theorem length_present : c.present.length = c.count := by
  have hall : c.slots.toList.zipIdx.map Prod.fst = c.slots.toList := List.zipIdx_map_fst 0 _
  rw [present, List.length_filterMap_eq_countP, count, ← Array.countP_toList, ← hall,
    List.countP_map, hall]
  exact List.countP_congr fun x _ => by rw [Option.isSome_map]; rfl

variable {c}

theorem mem_present {i : Nat} {v : α} : (i, v) ∈ c.present ↔ c.get? i = some v := by
  rw [present_eq, List.mem_filterMap]
  constructor
  · rintro ⟨j, -, hj⟩
    obtain ⟨x, hx, heq⟩ := Option.map_eq_some_iff.mp hj
    cases heq
    exact hx
  · intro h
    refine ⟨i, List.mem_range.mpr ?_, by rw [h]; rfl⟩
    by_contra hi
    rw [get?_eq_none_of_size_le (Nat.le_of_not_lt hi)] at h
    cases h

/-! ### The number of values -/

/-- A position gets another content. -/
theorem count_set {i : Nat} (hi : i < c.slots.size) (o : Option α) :
    (Column.mk (c.slots.setIfInBounds i o)).count + (if c.contains i then 1 else 0) =
      c.count + if o.isSome then 1 else 0 := by
  have hget : c.slots[i].isSome = c.contains i := by
    simp [contains, get?, Array.getElem?_eq_getElem hi]
  have hle := Array.boole_getElem_le_countP (p := Option.isSome) hi
  have hset : c.slots.setIfInBounds i o = c.slots.set i o hi := dif_pos hi
  simp only [count]
  rw [hset, Array.countP_set, hget]
  rw [hget] at hle
  omega

variable (c)

theorem count_grow (n : Nat) : (c.grow n).count = c.count := by
  simp only [count, grow, Array.countP_append, Array.countP_replicate]
  rfl

theorem count_map (f : α → α) : (c.map f).count = c.count := by
  simp only [count, map, Array.countP_map]
  congr 1
  funext o
  exact Option.isSome_map

theorem count_put (i : Nat) (o : Option α) :
    (c.put i o).count + (if c.contains i then 1 else 0) = c.count + if o.isSome then 1 else 0 := by
  have hi : i < (c.grow (i + 1)).size := by
    rw [size_grow]
    exact Nat.lt_of_lt_of_le (Nat.lt_succ_self i) (le_max_right _ _)
  have hcontains : (c.grow (i + 1)).contains i = c.contains i :=
    congrArg Option.isSome (get?_grow c (i + 1) i)
  have hset := count_set hi o
  rw [hcontains, count_grow] at hset
  exact hset

theorem count_erase (i : Nat) : (c.erase i).count + (if c.contains i then 1 else 0) = c.count := by
  by_cases hi : i < c.slots.size
  · exact count_set hi none
  · have hnone : c.contains i = false :=
      congrArg Option.isSome (get?_eq_none_of_size_le (Nat.le_of_not_lt hi))
    have hsame : c.erase i = c := congrArg Column.mk (dif_neg hi)
    rw [hnone, hsame]
    rfl

end EntityWorld.Column
