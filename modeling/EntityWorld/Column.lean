/-
# Columns: the values of one component type

A column holds one value, or none, per slot. It grows to take in any position
written to and never shrinks; positions past its end are empty. Positions named
by a word may be too many for the memory; `Column.write` tells.

Key definitions: `Column.get?`, `Column.put`, `Column.write`, `Column.erase`,
`Column.present`.
Key theorems: `Column.get?_put`, `Column.get?_erase`, each operation at a position
leaves all others alone.
-/
import EntityWorld.Text.Bracketed

namespace EntityWorld

structure Column (α : Type) where
  slots : Array (Option α) := #[]
deriving DecidableEq, Inhabited

namespace Column

variable {α : Type}

/-- The number of positions, filled or not. -/
def size (c : Column α) : Nat := c.slots.size

/-- Whether the column has no position at all. -/
def isEmpty (c : Column α) : Bool := c.slots.isEmpty

/-- The value at a position. -/
def get? (c : Column α) (i : Nat) : Option α := c.slots[i]?.join

def contains (c : Column α) (i : Nat) : Bool := (c.get? i).isSome

/-- The number of filled positions. -/
def count (c : Column α) : Nat := c.slots.countP Option.isSome

/-- The filled positions with their values, ascending. -/
def present (c : Column α) : List (Nat × α) :=
  c.slots.toList.zipIdx.filterMap fun (o, i) => o.map (i, ·)

/-- The column with at least `n` positions. -/
def grow (c : Column α) (n : Nat) : Column α :=
  ⟨c.slots ++ Array.replicate (n - c.slots.size) none⟩

/-- Makes `o` the content of a position, growing the column to take it in. -/
def put (c : Column α) (i : Nat) (o : Option α) : Column α :=
  ⟨(c.grow (i + 1)).slots.setIfInBounds i o⟩

/-- Writes a value to a position. -/
def insert (c : Column α) (i : Nat) (v : α) : Column α := c.put i (some v)

/-- No column has as many positions: they need more memory than can be addressed. -/
def limit : Nat := 0x100000000000000

/-- Makes `o` the content of the position that a word names, or fails if no column
has that position. A column that fails to grow stays as it is, except at the last
word: the number of positions to grow to is then zero, and none is left. -/
def write (i : UInt64) (o : Option α) : EStateM Unit (Column α) Unit := fun c =>
  if i.toNat < limit then .ok () (c.put i.toNat o)
  else .error () (if i + 1 = 0 then {} else c)

/-- Empties a position. -/
def erase (c : Column α) (i : Nat) : Column α := ⟨c.slots.setIfInBounds i none⟩

/-- Changes the value at a position, if there is one. -/
def modify (c : Column α) (i : Nat) (f : α → α) : Column α := ⟨c.slots.modify i (Option.map f)⟩

/-- Changes every value. -/
def map (f : α → α) (c : Column α) : Column α := ⟨c.slots.map (Option.map f)⟩

/-- Gives every empty position a value. -/
def fill (c : Column α) (v : α) : Column α := ⟨c.slots.map fun o => some (o.getD v)⟩

/-- The column with its fields named, its values shown by `item`. -/
def describe (item : α → String) (c : Column α) : String :=
  "SparseArray \x7b data: "
    ++ Text.bracketed (c.slots.toList.map fun
      | some v => "Some(" ++ item v ++ ")"
      | none => "None")
    ++ " \x7d"

/-! ### What the operations do to the values -/

@[simp] theorem get?_empty (i : Nat) : ({} : Column α).get? i = none := rfl

theorem get?_eq_none_of_size_le {c : Column α} {i : Nat} (h : c.size ≤ i) : c.get? i = none := by
  simp [get?, Array.getElem?_eq_none h]

@[simp] theorem size_grow (c : Column α) (n : Nat) : (c.grow n).size = max c.size n := by
  simp only [size, grow, Array.size_append, Array.size_replicate]; omega

@[simp] theorem get?_grow (c : Column α) (n i : Nat) : (c.grow n).get? i = c.get? i := by
  simp only [get?, grow, Array.getElem?_append, Array.getElem?_replicate]
  split
  · rfl
  · next h => rw [Array.getElem?_eq_none (by omega)]; split <;> rfl

@[simp] theorem size_put (c : Column α) (i : Nat) (o : Option α) :
    (c.put i o).size = max c.size (i + 1) := by
  simpa [size, put] using size_grow c (i + 1)

theorem get?_put (c : Column α) (i j : Nat) (o : Option α) :
    (c.put i o).get? j = if j = i then o else c.get? j := by
  rw [← get?_grow c (i + 1) j]
  have hi : i < (c.grow (i + 1)).slots.size := by
    have := size_grow c (i + 1); simp only [size] at this; omega
  simp only [get?, put, Array.getElem?_setIfInBounds]
  by_cases h : j = i
  · subst h; simp [hi]
  · simp [h, Ne.symm h]

@[simp] theorem size_erase (c : Column α) (i : Nat) : (c.erase i).size = c.size := by
  simp [size, erase]

theorem get?_erase (c : Column α) (i j : Nat) :
    (c.erase i).get? j = if j = i then none else c.get? j := by
  simp only [get?, erase, Array.getElem?_setIfInBounds]
  by_cases h : j = i
  · subst h; by_cases hj : j < c.slots.size <;> simp [hj]
  · simp [h, Ne.symm h]

@[simp] theorem size_modify (c : Column α) (i : Nat) (f : α → α) : (c.modify i f).size = c.size := by
  simp [size, modify]

theorem get?_modify (c : Column α) (i j : Nat) (f : α → α) :
    (c.modify i f).get? j = if j = i then (c.get? i).map f else c.get? j := by
  simp only [get?, modify, Array.getElem?_modify]
  by_cases h : j = i
  · subst h; cases hj : c.slots[j]? <;> simp
  · simp [h, Ne.symm h]

@[simp] theorem size_map (c : Column α) (f : α → α) : (c.map f).size = c.size := by simp [size, map]

@[simp] theorem get?_map (c : Column α) (f : α → α) (i : Nat) : (c.map f).get? i = (c.get? i).map f := by
  simp only [get?, map, Array.getElem?_map]
  cases c.slots[i]? <;> simp

end Column
end EntityWorld
