/-
# Entities keep to themselves

An operation on one entity does not disturb another. Two handles may name one slot
in two of its generations, and a column knows the slot only; but at most one of the
two is alive, and only what is alive is written to.

There are two sorts of operations here. What is done to a component stays within
that component, of one kind and of one entity (`World.Confined`); the end of an
entity reaches all of its components and labels, and nobody else's.

Nothing is asked of the columns, the labels and the journal: they may have been
changed from outside before.

Key definitions: `Operation.component?`, `Operation.subject?`, `World.Confined`,
`World.Spares`.
Key theorems: `Outcome.confined`, `World.spares_leave`,
`World.Exposed.operation_isolated`.
-/
import EntityWorld.Proofs.Convergence
import EntityWorld.Proofs.Values
import Mathlib.Tactic

namespace EntityWorld

namespace Labels

variable {l : Labels} {e e' : Handle}

/-- The labels of everybody else are found where they were. -/
theorem labelOf?_unbind_of_ne (h : e' ≠ e) : (l.unbind e).labelOf? e' = l.labelOf? e' := by
  have htarget : (fun x : Label => x.target == some e') ∘
      (fun x : Label => if x.target = some e then { x with target := none } else x) =
      fun x => x.target == some e' := by
    funext x
    simp only [Function.comp_apply]
    split
    · next hx =>
      simp [hx, Ne.symm h]
    · rfl
  simp only [labelOf?, unbind, Array.findIdx?_map, htarget]

theorem target?_unbind_iff_of_ne (h : e' ≠ e) (id : UInt32) :
    (l.unbind e).target? id = some e' ↔ l.target? id = some e' := by
  rw [target?_unbind, Option.filter_eq_some_iff]
  exact and_iff_left (by simpa using h)

end Labels

namespace Journal

/-- From one journal to another, at most the records of one component of one entity have
changed. -/
structure Confined (j j' : Journal) (e : Handle) (t : TypeTag) : Prop where
  created_eq : j'.created = j.created
  destroyed_eq : j'.destroyed = j.destroyed
  updatedAt?_eq : ∀ e' t', ¬ (e' = e ∧ t' = t) → j'.updatedAt? e' t' = j.updatedAt? e' t'
  removedAt?_eq : ∀ e' t', ¬ (e' = e ∧ t' = t) → j'.removedAt? e' t' = j.removedAt? e' t'

theorem confined_refl (j : Journal) (e : Handle) (t : TypeTag) : j.Confined j e t :=
  ⟨rfl, rfl, fun _ _ _ => rfl, fun _ _ _ => rfl⟩

theorem confined_recordUpdate (j : Journal) (e : Handle) (t : TypeTag) :
    j.Confined (j.recordUpdate e t) e t where
  created_eq := rfl
  destroyed_eq := rfl
  updatedAt?_eq e' t' hne := by rw [updatedAt?_recordUpdate, if_neg hne]
  removedAt?_eq e' t' hne := by rw [removedAt?_recordUpdate, if_neg hne]

theorem confined_recordRemoval (j : Journal) (e : Handle) (t : TypeTag) :
    j.Confined (j.recordRemoval e t) e t where
  created_eq := rfl
  destroyed_eq := rfl
  updatedAt?_eq e' t' hne := by rw [updatedAt?_recordRemoval, if_neg hne]
  removedAt?_eq e' t' hne := by rw [removedAt?_recordRemoval, if_neg hne]

end Journal

variable {κ : Type} [Family κ]

/-! ### What an operation is on -/

namespace Operation

/-- The component that an operation is on, by its kind and its entity. -/
def component? : Operation κ → Option (κ × Handle)
  | add k e _ | emplace k e _ | remove k e | markDirty k e | edit k e _ => some (k, e)
  | _ => none

/-- The entity that an operation is on. -/
def subject? : Operation κ → Option Handle
  | kill e => some e
  | op => op.component?.map (·.2)

/-- What is on an entity is its end, or is on a component of it. -/
theorem subject?_eq_some_iff {op : Operation κ} {e : Handle} :
    op.subject? = some e ↔ op = kill e ∨ ∃ k, op.component? = some (k, e) := by
  cases op <;> simp [subject?, component?]

end Operation

namespace World

/-! ### What is left alone -/

/-- Whether an entity lives, when it came and went and what labels it has stays as it
was. -/
structure SparesLife (w w' : World κ) (e : Handle) : Prop where
  isAlive_eq : w'.isAlive e = w.isAlive e
  createdAt?_eq : w'.journal.createdAt? e = w.journal.createdAt? e
  destroyedAt?_eq : w'.journal.destroyedAt? e = w.journal.destroyedAt? e
  target?_iff : ∀ id, w'.labels.target? id = some e ↔ w.labels.target? id = some e
  labelOf?_eq : w'.labels.labelOf? e = w.labels.labelOf? e

/-- Whether an entity has the component of a tag, and what the journal has of it, stays as
it was. -/
structure SparesTag (w w' : World κ) (e : Handle) (t : TypeTag) : Prop where
  mem_typesOf_iff : t ∈ w'.typesOf e ↔ t ∈ w.typesOf e
  updatedAt?_eq : w'.journal.updatedAt? e t = w.journal.updatedAt? e t
  removedAt?_eq : w'.journal.removedAt? e t = w.journal.removedAt? e t

variable [DecidableEq κ]

/-- All that a world tells of an entity stays as it was. -/
structure Spares (w w' : World κ) (e : Handle) : Prop extends SparesLife w w' e where
  get?_eq : ∀ k, w'.get? k e = w.get? k e
  typesOf_eq : w'.typesOf e = w.typesOf e
  updatedAt?_eq : ∀ t, w'.journal.updatedAt? e t = w.journal.updatedAt? e t
  removedAt?_eq : ∀ t, w'.journal.removedAt? e t = w.journal.removedAt? e t

variable {w w' : World κ} {k k' : κ} {e e' : Handle} {pool : SlotPool} {t : TypeTag}

omit [DecidableEq κ] in
theorem tagsDistinct_of_forms (hw : w.TagsDistinct) (hf : w'.forms = w.forms) :
    w'.TagsDistinct := by
  have htags : ∀ u : World κ, u.registrations.map (·.tag) = u.forms.map fun s => tagOf s.1 := by
    intro u
    unfold forms
    rw [List.map_map]
    rfl
  unfold TagsDistinct at hw ⊢
  rw [htags, hf, ← htags]
  exact hw

/-- The tags of an entity are known from its values. -/
theorem typesOf_congr (hw : w.TagsDistinct) (hf : w'.forms = w.forms)
    (hg : ∀ k, w'.get? k e = w.get? k e) : w'.typesOf e = w.typesOf e := by
  rw [typesOf_eq_map (tagsDistinct_of_forms hw hf), typesOf_eq_map hw, hf]
  simp only [hg]

/-- And whether it has one tag is known from the values of that tag. -/
theorem mem_typesOf_congr (hw : w.TagsDistinct) (hf : w'.forms = w.forms)
    (hg : ∀ k, tagOf k = t → w'.get? k e = w.get? k e) : t ∈ w'.typesOf e ↔ t ∈ w.typesOf e := by
  rw [typesOf_eq_map (tagsDistinct_of_forms hw hf), typesOf_eq_map hw, hf]
  simp only [List.mem_map, List.mem_filter]
  refine exists_congr fun s => and_congr_left fun ht => ?_
  rw [hg s.1 ht]

/-! ### Within one component -/

/-- A change of one component of one entity, and of nothing else. -/
structure Confined (w w' : World κ) (k : κ) (e : Handle) : Prop where
  pool_eq : w'.pool = w.pool
  labels_eq : w'.labels = w.labels
  forms_eq : w'.forms = w.forms
  journal : w.journal.Confined w'.journal e (tagOf k)
  get?_eq : ∀ k' e', ¬ (k' = k ∧ e' = e) → w'.get? k' e' = w.get? k' e'

theorem confined_refl (w : World κ) (k : κ) (e : Handle) : w.Confined w k e :=
  ⟨rfl, rfl, rfl, Journal.confined_refl _ _ _, fun _ _ _ => rfl⟩

theorem confined_write (he : w.isAlive e) (o : Option (Value k)) :
    w.Confined (w.write k e o) k e where
  pool_eq := rfl
  labels_eq := rfl
  forms_eq := forms_write e o
  journal := Journal.confined_recordUpdate _ _ _
  get?_eq _ _ hne := get?_write_of_ne he o hne

theorem confined_discard (he : w.isAlive e) : w.Confined (w.discard k e) k e where
  pool_eq := rfl
  labels_eq := rfl
  forms_eq := forms_rework (k := k) (·.erase e.slot)
  journal := by
    unfold discard
    split
    · exact Journal.confined_recordRemoval _ _ _
    · exact Journal.confined_refl _ _ _
  get?_eq _ _ hne := get?_discard_of_ne he hne

theorem confined_stamp (w : World κ) (k : κ) (e : Handle) : w.Confined (w.stamp k e) k e where
  pool_eq := rfl
  labels_eq := rfl
  forms_eq := rfl
  journal := Journal.confined_recordUpdate _ _ _
  get?_eq _ _ _ := rfl

theorem confined_edit (he : w.isAlive e) (f : Value k → Value k) :
    w.Confined (w.rework k (·.modify e.slot f)) k e where
  pool_eq := rfl
  labels_eq := rfl
  forms_eq := forms_rework _
  journal := Journal.confined_refl _ _ _
  get?_eq _ _ hne := get?_rework_modify_of_ne he f hne

namespace Confined

variable (h : w.Confined w' k e)
include h

theorem sparesLife (e' : Handle) : w.SparesLife w' e' where
  isAlive_eq := by
    unfold isAlive
    rw [h.pool_eq]
  createdAt?_eq := by rw [Journal.createdAt?, h.journal.created_eq, Journal.createdAt?]
  destroyedAt?_eq := by rw [Journal.destroyedAt?, h.journal.destroyed_eq, Journal.destroyedAt?]
  target?_iff id := by rw [h.labels_eq]
  labelOf?_eq := by rw [h.labels_eq]

/-- A change of a component is not seen by another entity. -/
theorem spares (hw : w.TagsDistinct) (hne : e' ≠ e) : w.Spares w' e' := by
  have hget : ∀ k', w'.get? k' e' = w.get? k' e' := fun k' => h.get?_eq k' e' fun hs => hne hs.2
  exact ⟨h.sparesLife e', hget, typesOf_congr hw h.forms_eq hget,
    fun t => h.journal.updatedAt?_eq e' t fun hs => hne hs.1,
    fun t => h.journal.removedAt?_eq e' t fun hs => hne hs.1⟩

/-- Nor does it touch the other tags of its entity. -/
theorem sparesTag (hw : w.TagsDistinct) (ht : t ≠ tagOf k) : w.SparesTag w' e t := by
  have hget : ∀ k', tagOf k' = t → w'.get? k' e = w.get? k' e := by
    rintro k' rfl
    exact h.get?_eq k' e fun hs => ht (congrArg tagOf hs.1)
  exact ⟨mem_typesOf_congr hw h.forms_eq hget, h.journal.updatedAt?_eq e t fun hs => ht hs.2,
    h.journal.removedAt?_eq e t fun hs => ht hs.2⟩

end Confined

/-! ### The end of an entity -/

theorem spares_refl (w : World κ) (e : Handle) : w.Spares w e :=
  ⟨⟨rfl, rfl, rfl, fun _ => Iff.rfl, rfl⟩, fun _ => rfl, rfl, fun _ => rfl, fun _ => rfl⟩

/-- An entity that goes takes nothing of anybody else's. -/
theorem spares_leave (hw : w.TagsDistinct) (he : w.pool.Leaves e pool) (hne : e' ≠ e) :
    w.Spares (w.leave e pool) e' := by
  have halive : (w.leave e pool).isAlive e' ↔ w.isAlive e' :=
    he.isAlive_iff.trans (and_iff_right hne)
  have hget : ∀ k, (w.leave e pool).get? k e' = w.get? k e' := by
    intro k
    rw [get?_leave he, if_neg hne]
  refine ⟨⟨Bool.eq_iff_iff.mpr halive, rfl, ?_, Labels.target?_unbind_iff_of_ne hne,
    Labels.labelOf?_unbind_of_ne hne⟩, hget, typesOf_congr hw forms_leave hget, fun t => ?_,
    fun t => ?_⟩
  · change (w.journal.recordDestruction e).destroyedAt? e' = _
    rw [Journal.destroyedAt?_recordDestruction, if_neg hne]
  · change (w.journal.recordDestruction e).updatedAt? e' t = _
    rw [Journal.updatedAt?_recordDestruction, if_neg hne]
  · change (w.journal.recordDestruction e).removedAt? e' t = _
    rw [Journal.removedAt?_recordDestruction, if_neg hne]

end World

/-! ### Operations -/

variable [DecidableEq κ]

namespace Outcome

variable {w w' : World κ} {op : Operation κ} {xs : List Event} {k : κ} {e : Handle}

/-- What an operation on a component comes to stays within the component. -/
theorem confined (h : Outcome w op xs w') (hop : op.component? = some (k, e)) :
    w.Confined w' k e := by
  cases h with
  | refused => exact World.confined_refl w k e
  | add hk he =>
    cases hop
    exact World.confined_write he _
  | emplace hk he =>
    cases hop
    exact World.confined_write he _
  | remove hk he =>
    cases hop
    exact World.confined_discard he
  | markDirty hk hg =>
    cases hop
    exact World.confined_stamp w k e
  | edit hk hg =>
    cases hop
    exact World.confined_edit (World.isAlive_of_get? hg) _
  | _ => cases hop

/-- A kind that is not registered has no components to operate on. -/
theorem eq_of_not_isRegistered (h : Outcome w op xs w') (hop : op.component? = some (k, e))
    (hk : ¬ w.isRegistered k) : w' = w := by
  cases h with
  | refused => rfl
  | add hr | emplace hr | remove hr | markDirty hr | edit hr =>
    cases hop
    exact (hk hr).elim
  | _ => cases hop

end Outcome

namespace World

variable {w : World κ} {op : Operation κ} {e : Handle}

/-- The end of an entity is refused, or spares everybody else. -/
theorem Exposed.spares_apply_kill (hw : w.Exposed) (e : Handle) :
    ((Operation.kill e).apply w).forms = w.forms ∧
      ∀ e', e' ≠ e → w.Spares ((Operation.kill e).apply w) e' := by
  have hout := (Operation.kill e).outcome_apply hw.pool_wellFormed
  generalize (Operation.kill e).events w = xs at hout
  generalize (Operation.kill e).apply w = w' at hout ⊢
  cases hout with
  | refused => exact ⟨rfl, fun e' _ => spares_refl w e'⟩
  | kill hk =>
    exact ⟨forms_leave, fun e' hne =>
      spares_leave hw.tagsDistinct (SlotPool.leaves_of_kill hk) hne⟩

theorem Exposed.confined_apply (hw : w.Exposed) {k : κ} (hop : op.component? = some (k, e)) :
    w.Confined (op.apply w) k e :=
  (op.outcome_apply hw.pool_wellFormed).confined hop

/-- **An operation on one entity does not disturb another.** Whatever was done to a world
before, an operation on an entity, be it refused or not, leaves alone all that the
world tells of any other handle, also of one for the same slot. And if it is on one
component, the rest of the entity is left alone as well: its life and its labels,
its other components, their values and what the journal has of them. -/
theorem Exposed.operation_isolated (hw : w.Exposed) (hop : op.subject? = some e) :
    (op.apply w).forms = w.forms ∧
    (∀ e', e' ≠ e → w.Spares (op.apply w) e') ∧
    ∀ k, op.component? = some (k, e) →
      w.SparesLife (op.apply w) e ∧
      (∀ t, t ≠ tagOf k → w.SparesTag (op.apply w) e t) ∧
      ∀ k', k' ≠ k → (op.apply w).get? k' e = w.get? k' e ∧
        (w.isRegistered k' → w.SparesTag (op.apply w) e (tagOf k')) := by
  have hothers : (op.apply w).forms = w.forms ∧ ∀ e', e' ≠ e → w.Spares (op.apply w) e' := by
    rcases Operation.subject?_eq_some_iff.mp hop with rfl | ⟨k, hc⟩
    · exact hw.spares_apply_kill e
    · have hconf := hw.confined_apply hc
      exact ⟨hconf.forms_eq, fun e' hne => hconf.spares hw.tagsDistinct hne⟩
  refine ⟨hothers.1, hothers.2, fun k hc => ?_⟩
  have hconf := hw.confined_apply hc
  refine ⟨hconf.sparesLife e, fun t ht => hconf.sparesTag hw.tagsDistinct ht, fun k' hne =>
    ⟨hconf.get?_eq k' e fun hs => hne hs.1, fun hk' => ?_⟩⟩
  -- two kinds are sure to have two tags only if both are registered
  by_cases hk : w.isRegistered k
  · exact hconf.sparesTag hw.tagsDistinct fun ht => hne (eq_of_tagOf_eq hw.tagsDistinct hk' hk ht)
  · rw [(op.outcome_apply hw.pool_wellFormed).eq_of_not_isRegistered hc hk]
    exact ⟨Iff.rfl, rfl, rfl⟩

/-- A slot in its second generation, the first still named by a stray stamp, beside a
neighbour with a label and two components. -/
def secondGeneration : World (Stocked Empty) :=
  undergo {} [.operate (.registerSynced .particle Particle.codec), .operate (.register .star),
    .operate .spawn, .operate .spawn, .operate (.kill ⟨0, 0⟩), .operate .spawn,
    .operate (.add .particle ⟨0, 1⟩ {}), .operate (.add .star ⟨1, 0⟩ {}),
    .operate (.add .particle ⟨1, 0⟩ {}), .operate (.createLabel "lamp" ⟨1, 0⟩),
    .journal (·.recordUpdate ⟨0, 0⟩ ⟨7⟩)]

theorem operation_isolated_secondGeneration :
    secondGeneration.isAlive ⟨0, 1⟩ ∧
      secondGeneration.typesOf ⟨1, 0⟩ =
        [tagOf (.particle : Stocked Empty), tagOf (.star : Stocked Empty)] ∧
      secondGeneration.Spares ((Operation.kill ⟨0, 1⟩).apply secondGeneration) ⟨0, 0⟩ ∧
      secondGeneration.Spares ((Operation.kill ⟨0, 1⟩).apply secondGeneration) ⟨1, 0⟩ ∧
      ((Operation.remove .particle ⟨1, 0⟩).apply secondGeneration).get? .star ⟨1, 0⟩ =
        secondGeneration.get? .star ⟨1, 0⟩ := by
  have hw : secondGeneration.Exposed := exposed_undergo (s := {}) rfl _
  have hkill := (@Exposed.operation_isolated _ _ _ _ (.kill ⟨0, 1⟩) _ hw rfl).2.1
  have hremove :=
    (@Exposed.operation_isolated _ _ _ _ (.remove .particle ⟨1, 0⟩) _ hw rfl).2.2 _ rfl
  exact ⟨by decide +kernel, by decide +kernel, hkill _ (by decide), hkill _ (by decide),
    (hremove.2.2 .star (by decide)).1⟩

end World
end EntityWorld
