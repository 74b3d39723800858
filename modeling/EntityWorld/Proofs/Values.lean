/-
# Values, entity by entity

What each elementary change does to the value of a component (`World.get?`), and
to what is registered (`World.forms`). An entity that comes has no component and
takes nobody's; one that goes takes its own along; a write is to one component
of one entity. The kind and the entity tell the components apart here, not the
tag and the slot.

The payload of a component is its value in the codec of its kind
(`World.payload?_eq_map`), so that two worlds with the same kinds and the same
values have the same payloads.

Key theorems: `World.get?_leave`, `World.get?_write_self`, `World.get?_rework`,
`World.payload?_eq_map`.
-/
import EntityWorld.Proofs.Overlay
import Mathlib.Tactic

namespace EntityWorld

variable {κ : Type} [Family κ] [DecidableEq κ]

namespace World

variable {w w' : World κ} {k k' : κ} {e e' : Handle} {pool : SlotPool} {t : TypeTag}

theorem get?_of_not_isAlive (h : ¬ w.isAlive e) : w.get? k e = none := if_neg h

theorem isRegistered_of_get? (h : (w.get? k e).isSome) : w.isRegistered k := by
  by_contra hk
  rw [get?_eq_none_of_not_isRegistered hk] at h
  cases h

/-- A component that is there is recorded when asked. -/
theorem markDirty_of_get? (h : (w.get? k e).isSome) : markDirty k e w = .ok true (w.stamp k e) := by
  rw [markDirty_eq, refusal?_eq_none_iff.mpr ⟨isRegistered_of_get? h, isAlive_of_get? h⟩]
  exact if_pos h

/-- The tags of an entity are those of the kinds it has a value of. -/
theorem typesOf_eq_map (hw : w.TagsDistinct) (e : Handle) :
    w.typesOf e = (w.forms.filter fun s => (w.get? s.1 e).isSome).map fun s => tagOf s.1 := by
  have hkind : ∀ r ∈ w.registrations,
      (w.get? r.form.1 e).isSome = (w.isAlive e && r.column.contains e.slot) := by
    intro r hr
    have hc : w.column? r.form.1 = some r.column := column?_of_mem hw hr
    unfold get?
    rw [hc]
    cases w.isAlive e <;> rfl
  unfold typesOf forms
  rw [List.filter_map, List.map_map]
  change _ = (w.registrations.filter fun r => (w.get? r.form.1 e).isSome).map (·.tag)
  rw [List.filter_congr hkind]
  cases w.isAlive e <;> simp

/-! ### Entities that come and go -/

omit [DecidableEq κ] in
theorem forms_leave : (w.leave e pool).forms = w.forms := by
  unfold forms leave
  rw [List.map_map]
  rfl

theorem column?_leave (k : κ) :
    (w.leave e pool).column? k = (w.column? k).map (·.erase e.slot) := by
  have hmap : (w.leave e pool).column? k =
      w.registrations.findSome? fun r => (r.erase e.slot).column? k := List.findSome?_map
  rw [hmap, column?, List.map_findSome?]
  congr 1
  funext r
  obtain ⟨k', c, codec⟩ := r
  by_cases hk : k' = k
  · subst hk
    have hown : ∀ c, (Registration.mk k' c codec).column? k' = some c := fun _ => dif_pos rfl
    rw [Function.comp_apply, hown]
    exact hown _
  · have hother : ∀ c, (Registration.mk k' c codec).column? k = none := fun _ => dif_neg hk
    rw [Function.comp_apply, hother]
    exact hother _

/-- Who goes has no value, and all others keep theirs. -/
theorem get?_leave (he : w.pool.Leaves e pool) (k : κ) (e' : Handle) :
    (w.leave e pool).get? k e' = if e' = e then none else w.get? k e' := by
  have halive : (w.leave e pool).isAlive e' ↔ e' ≠ e ∧ w.isAlive e' := he.isAlive_iff
  by_cases heq : e' = e
  · rw [if_pos heq, get?_of_not_isAlive fun h => (halive.mp h).1 heq]
  · rw [if_neg heq]
    by_cases ha : w.isAlive e'
    · have hslot : e'.slot ≠ e.slot := fun hs => heq (SlotPool.eq_of_isAlive ha he.alive hs)
      rw [get?_of_isAlive (halive.mpr ⟨heq, ha⟩), get?_of_isAlive ha, value?, value?, column?_leave]
      cases w.column? k with
      | none => rfl
      | some c => exact (Column.get?_erase c _ _).trans (if_neg hslot)
    · rw [get?_of_not_isAlive ha, get?_of_not_isAlive fun h => ha (halive.mp h).2]

/-! ### Components that are written -/

theorem forms_write (e : Handle) (o : Option (Value k)) : (w.write k e o).forms = w.forms :=
  forms_rework _

theorem get?_write_self (hk : w.isRegistered k) (he : w.isAlive e) (o : Option (Value k)) :
    (w.write k e o).get? k e = o := by
  have ha : (w.write k e o).isAlive e := he
  rw [get?_of_isAlive ha, value?_write_self hk]

/-- No two live entities share a slot, so a write is to one entity. -/
theorem get?_write_of_ne (he : w.isAlive e) (o : Option (Value k)) (h : ¬ (k' = k ∧ e' = e)) :
    (w.write k e o).get? k' e' = w.get? k' e' := by
  by_cases ha : w.isAlive e'
  · have ha' : (w.write k e o).isAlive e' := ha
    rw [get?_of_isAlive ha', get?_of_isAlive ha]
    exact value?_write_of_ne e o fun hk hs => h ⟨hk, SlotPool.eq_of_isAlive ha he hs⟩
  · exact (get?_of_not_isAlive (w := w.write k e o) ha).trans (get?_of_not_isAlive ha).symm

theorem isRegistered_rework (f : Column (Value k) → Column (Value k)) :
    (w.rework k f).isRegistered k = w.isRegistered k := by
  rw [Bool.eq_iff_iff, isRegistered_iff_column?, isRegistered_iff_column?, column?_rework,
    Option.isSome_map]

theorem get?_rework_of_ne (f : Column (Value k) → Column (Value k)) (hk : k' ≠ k) :
    (w.rework k f).get? k' e = w.get? k' e := by
  have hc : (w.rework k f).column? k' = w.column? k' := column?_rework_of_ne f hk
  unfold get?
  rw [hc]
  rfl

/-- A change of a column is seen through the slot of an entity. -/
theorem get?_rework (f : Column (Value k) → Column (Value k))
    {g : Option (Value k) → Option (Value k)} (hg : g none = none)
    (hf : ∀ c : Column (Value k), (f c).get? e.slot = g (c.get? e.slot)) :
    (w.rework k f).get? k e = g (w.get? k e) := by
  by_cases ha : w.isAlive e
  · have ha' : (w.rework k f).isAlive e := ha
    rw [get?_of_isAlive ha', get?_of_isAlive ha, value?, value?, column?_rework]
    cases w.column? k with
    | none => exact hg.symm
    | some c => exact hf c
  · rw [get?_of_not_isAlive ha, hg]
    exact get?_of_not_isAlive (w := w.rework k f) ha

/-- Every value of a column is edited. -/
theorem get?_rework_map (f : Value k → Value k) :
    (w.rework k (·.map f)).get? k e = (w.get? k e).map f :=
  get?_rework _ rfl fun c => Column.get?_map c f e.slot

/-- The value of one entity is edited. -/
theorem get?_rework_modify_self (f : Value k → Value k) :
    (w.rework k (·.modify e.slot f)).get? k e = (w.get? k e).map f :=
  get?_rework _ rfl fun c => (Column.get?_modify c e.slot e.slot f).trans (if_pos rfl)

/-- A change of a column at the slot of an entity leaves everybody else's values. -/
theorem get?_rework_of_others (he : w.isAlive e) (f : Column (Value k) → Column (Value k))
    (hf : ∀ c i, i ≠ e.slot → (f c).get? i = c.get? i) (h : ¬ (k' = k ∧ e' = e)) :
    (w.rework k f).get? k' e' = w.get? k' e' := by
  by_cases hk : k' = k
  · subst hk
    by_cases ha : w.isAlive e'
    · have hslot : e'.slot ≠ e.slot := fun hs => h ⟨rfl, SlotPool.eq_of_isAlive ha he hs⟩
      exact get?_rework _ (g := id) rfl fun c => hf c e'.slot hslot
    · rw [get?_of_not_isAlive ha]
      exact get?_of_not_isAlive (w := w.rework k' _) ha
  · exact get?_rework_of_ne _ hk

theorem get?_rework_modify_of_ne (he : w.isAlive e) (f : Value k → Value k)
    (h : ¬ (k' = k ∧ e' = e)) :
    (w.rework k (·.modify e.slot f)).get? k' e' = w.get? k' e' :=
  get?_rework_of_others he _ (fun c i hi => (Column.get?_modify c e.slot i f).trans (if_neg hi)) h

/-! ### Components that are taken away -/

theorem get?_discard_self : (w.discard k e).get? k e = none :=
  get?_rework (·.erase e.slot) (g := fun _ => none) rfl fun c =>
    (Column.get?_erase c e.slot e.slot).trans (if_pos rfl)

theorem get?_discard_of_ne (he : w.isAlive e) (h : ¬ (k' = k ∧ e' = e)) :
    (w.discard k e).get? k' e' = w.get? k' e' :=
  get?_rework_of_others he (·.erase e.slot)
    (fun c i hi => (Column.get?_erase c e.slot i).trans (if_neg hi)) h

/-! ### Payloads -/

/-- The payload of a component is its value in the codec of its kind. -/
theorem payload?_eq_map (hw : w.TagsDistinct) (e : Handle) (t : TypeTag) :
    w.payload? e t = (w.synced? t).bind fun s => (w.get? s.1 e).map s.2.encode := by
  by_cases ha : w.isAlive e
  · rw [payload?_of_isAlive ha, bytes?, synced?_eq]
    cases hr : w.ofTag? t with
    | none => rfl
    | some r =>
      have hget : w.get? r.kind e = r.column.get? e.slot := by
        rw [get?_of_isAlive ha, value?, column?_of_mem hw (mem_of_ofTag? hr)]
        rfl
      rw [Option.bind_some, Option.bind_some, Registration.encode?_eq, Registration.synced?]
      cases hc : r.codec with
      | none => rfl
      | some c => exact congrArg (Option.map c.encode) hget.symm
  · rw [payload?_of_not_isAlive ha]
    cases w.synced? t with
    | none => rfl
    | some s =>
      rw [Option.bind_some, get?_of_not_isAlive ha]
      rfl

theorem payload?_eq_of_get? (hw : w.TagsDistinct) (hw' : w'.TagsDistinct) (hf : w'.forms = w.forms)
    (hg : ∀ k, tagOf k = t → w'.get? k e = w.get? k e) : w'.payload? e t = w.payload? e t := by
  rw [payload?_eq_map hw, payload?_eq_map hw', synced?_eq_of_forms hf]
  cases hs : w.synced? t with
  | none => rfl
  | some s =>
    rw [Option.bind_some, Option.bind_some, hg s.1 (isRegistered_of_synced? hs).2]

end World
end EntityWorld
