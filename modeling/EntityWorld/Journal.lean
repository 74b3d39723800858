/-
# The journal: what changed, and when

The journal stamps every change with the version that is current when it
happens. It keeps the last stamp per entity or component only, in four tables:
entities created, entities destroyed, components written, components removed.
A component is never in both of the last two, and none of a destroyed entity's
components is in either.

A peer that has acknowledged a version needs only the later stamps, so `prune`
drops the others.

Key definitions: `Journal.recordUpdate`, `Journal.recordRemoval`,
`Journal.recordDestruction`, `Journal.prune`. Key theorems:
`Journal.updatedAt?_recordUpdate` and its like for the other operations.
-/
import EntityWorld.Handle
import EntityWorld.TypeTag
import Std.Data.ExtTreeMap

namespace EntityWorld

/-- One component of one entity. -/
structure ComponentKey where
  entity : Handle
  tag : TypeTag
deriving DecidableEq, Inhabited

namespace ComponentKey

/-- Entities come first, tags of one entity second. -/
instance : Ord ComponentKey := ⟨compareLex (compareOn entity) (compareOn tag)⟩

instance : Std.TransOrd ComponentKey :=
  inferInstanceAs (Std.TransCmp (compareLex (compareOn entity) (compareOn tag)))

instance : Std.LawfulEqOrd ComponentKey where
  eq_of_compare {a b} h := by
    have h : compareLex (compareOn entity) (compareOn tag) a b = .eq := h
    simp only [compareLex, compareOn, Ordering.then_eq_eq, Std.LawfulEqOrd.compare_eq_iff_eq] at h
    cases a; cases b; simp_all

end ComponentKey

/-- The last stamp per key, keys ascending. -/
abbrev Stamps (κ : Type) [Ord κ] := Std.ExtTreeMap κ Nat

structure Journal where
  /-- The current version. -/
  now : Nat := 0
  created : Stamps Handle := ∅
  destroyed : Stamps Handle := ∅
  updated : Stamps ComponentKey := ∅
  removed : Stamps ComponentKey := ∅

namespace Journal

def recordCreation (j : Journal) (e : Handle) : Journal :=
  { j with created := j.created.insert e j.now }

/-- The end of an entity stands for the end of all its components. -/
def recordDestruction (j : Journal) (e : Handle) : Journal :=
  { j with
    destroyed := j.destroyed.insert e j.now
    updated := j.updated.filter fun k _ => k.entity != e
    removed := j.removed.filter fun k _ => k.entity != e }

/-- A component was written; that it had been removed before is forgotten. -/
def recordUpdate (j : Journal) (e : Handle) (t : TypeTag) : Journal :=
  { j with
    updated := j.updated.insert ⟨e, t⟩ j.now
    removed := j.removed.erase ⟨e, t⟩ }

/-- A component was removed; that it had been written before is forgotten. -/
def recordRemoval (j : Journal) (e : Handle) (t : TypeTag) : Journal :=
  { j with
    updated := j.updated.erase ⟨e, t⟩
    removed := j.removed.insert ⟨e, t⟩ j.now }

/-- The version at which a component was last written. -/
def updatedAt? (j : Journal) (e : Handle) (t : TypeTag) : Option Nat := j.updated[ComponentKey.mk e t]?

/-- The version at which a component was removed. -/
def removedAt? (j : Journal) (e : Handle) (t : TypeTag) : Option Nat := j.removed[ComponentKey.mk e t]?

/-- The number of stamps kept. -/
def size (j : Journal) : Nat :=
  j.created.size + j.destroyed.size + j.updated.size + j.removed.size

def isEmpty (j : Journal) : Bool := j.size == 0

/-- Drops all stamps up to and including a version. -/
def prune (j : Journal) (acknowledged : Nat) : Journal :=
  { j with
    created := j.created.filter fun _ v => acknowledged < v
    destroyed := j.destroyed.filter fun _ v => acknowledged < v
    updated := j.updated.filter fun _ v => acknowledged < v
    removed := j.removed.filter fun _ v => acknowledged < v }

/-- The number of stamps that `prune` drops. -/
def pruneCount (j : Journal) (acknowledged : Nat) : Nat := j.size - (j.prune acknowledged).size

/-! ### Dropping one stamp -/

def forgetCreation (j : Journal) (e : Handle) : Journal := { j with created := j.created.erase e }

def forgetDestruction (j : Journal) (e : Handle) : Journal :=
  { j with destroyed := j.destroyed.erase e }

def forgetUpdate (j : Journal) (e : Handle) (t : TypeTag) : Journal :=
  { j with updated := j.updated.erase ⟨e, t⟩ }

def forgetRemoval (j : Journal) (e : Handle) (t : TypeTag) : Journal :=
  { j with removed := j.removed.erase ⟨e, t⟩ }

/-! ### What the operations do to the stamps of components -/

theorem updatedAt?_recordUpdate (j : Journal) (e e' : Handle) (t t' : TypeTag) :
    (j.recordUpdate e t).updatedAt? e' t' =
      if e' = e ∧ t' = t then some j.now else j.updatedAt? e' t' := by
  simp only [updatedAt?, recordUpdate, Std.ExtTreeMap.getElem?_insert,
    Std.LawfulEqOrd.compare_eq_iff_eq, ComponentKey.mk.injEq]
  grind

theorem removedAt?_recordUpdate (j : Journal) (e e' : Handle) (t t' : TypeTag) :
    (j.recordUpdate e t).removedAt? e' t' =
      if e' = e ∧ t' = t then none else j.removedAt? e' t' := by
  simp only [removedAt?, recordUpdate, Std.ExtTreeMap.getElem?_erase,
    Std.LawfulEqOrd.compare_eq_iff_eq, ComponentKey.mk.injEq]
  grind

theorem updatedAt?_recordRemoval (j : Journal) (e e' : Handle) (t t' : TypeTag) :
    (j.recordRemoval e t).updatedAt? e' t' =
      if e' = e ∧ t' = t then none else j.updatedAt? e' t' := by
  simp only [updatedAt?, recordRemoval, Std.ExtTreeMap.getElem?_erase,
    Std.LawfulEqOrd.compare_eq_iff_eq, ComponentKey.mk.injEq]
  grind

theorem removedAt?_recordRemoval (j : Journal) (e e' : Handle) (t t' : TypeTag) :
    (j.recordRemoval e t).removedAt? e' t' =
      if e' = e ∧ t' = t then some j.now else j.removedAt? e' t' := by
  simp only [removedAt?, recordRemoval, Std.ExtTreeMap.getElem?_insert,
    Std.LawfulEqOrd.compare_eq_iff_eq, ComponentKey.mk.injEq]
  grind

theorem updatedAt?_recordDestruction (j : Journal) (e e' : Handle) (t : TypeTag) :
    (j.recordDestruction e).updatedAt? e' t = if e' = e then none else j.updatedAt? e' t := by
  simp only [updatedAt?, recordDestruction, Std.ExtTreeMap.getElem?_filter]
  by_cases h : e' = e
  · subst h; simp
  · have hne : (e' != e) = true := by simpa using h
    simp only [Std.ExtTreeMap.getKey_eq, Option.pfilter_eq_filter, hne, if_neg h]
    cases j.updated[ComponentKey.mk e' t]? <;> rfl

theorem removedAt?_recordDestruction (j : Journal) (e e' : Handle) (t : TypeTag) :
    (j.recordDestruction e).removedAt? e' t = if e' = e then none else j.removedAt? e' t := by
  simp only [removedAt?, recordDestruction, Std.ExtTreeMap.getElem?_filter]
  by_cases h : e' = e
  · subst h; simp
  · have hne : (e' != e) = true := by simpa using h
    simp only [Std.ExtTreeMap.getKey_eq, Option.pfilter_eq_filter, hne, if_neg h]
    cases j.removed[ComponentKey.mk e' t]? <;> rfl

theorem updatedAt?_prune (j : Journal) (a : Nat) (e : Handle) (t : TypeTag) :
    (j.prune a).updatedAt? e t = (j.updatedAt? e t).filter (a < ·) := by
  simp [updatedAt?, prune, Std.ExtTreeMap.getElem?_filter]

theorem removedAt?_prune (j : Journal) (a : Nat) (e : Handle) (t : TypeTag) :
    (j.prune a).removedAt? e t = (j.removedAt? e t).filter (a < ·) := by
  simp [removedAt?, prune, Std.ExtTreeMap.getElem?_filter]

end Journal
end EntityWorld
