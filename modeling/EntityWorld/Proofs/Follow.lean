/-
# Values and their stamps

Between two worlds `P` and `w`, in this order, each component either is as it was
or has a stamp that tells how it came to be as it is: that of its last write, if
it is there, and that of the end of its entity, if not (`World.Marked`). Which
stamps count is up to the reader, who may look for those after some version or
for those of one version only; the changes made in between have to be stamped
with such a version, and none that counts may be dropped.

Edits in place break this until the record that follows them. `World.Follows`
names the components for which the record is still to come.

Key definitions: `World.Marked`, `World.Kept`, `World.Follows`.
Key theorems: `World.Follows.step`, `World.Follows.write` and its like for the
other changes.
-/
import EntityWorld.Proofs.Values
import Mathlib.Tactic

namespace EntityWorld

variable {κ : Type} [Family κ] [DecidableEq κ]

namespace World

/-- The stamp that tells how a component came to be as it is counts. -/
def Marked (w : World κ) (p : Nat → Bool) (k : κ) (e : Handle) : Prop :=
  if (w.get? k e).isSome then (w.journal.updatedAt? e (tagOf k)).any p
  else (w.journal.destroyedAt? e).any p

/-- A component is as it was, and its entity was not destroyed since. -/
structure Kept (P w : World κ) (p : Nat → Bool) (k : κ) (e : Handle) : Prop where
  get?_eq : w.get? k e = P.get? k e
  destroyed : (w.journal.destroyedAt? e).any p → (P.journal.destroyedAt? e).any p

/-- A component is as it was before a change, and no stamp of it that counts is lost. -/
structure Undisturbed (w w' : World κ) (p : Nat → Bool) (k : κ) (e : Handle) : Prop where
  get?_eq : w'.get? k e = w.get? k e
  updated : (w.journal.updatedAt? e (tagOf k)).any p → (w'.journal.updatedAt? e (tagOf k)).any p
  destroyed : (w'.journal.destroyedAt? e).any p = (w.journal.destroyedAt? e).any p

/-- `w` comes after `P`: what is not as it was is marked, but for what is `pending`. -/
structure Follows (P : World κ) (p : Nat → Bool) (pending : κ → Handle → Prop) (w : World κ) :
    Prop where
  wellFormed : w.WellFormed
  forms_eq : w.forms = P.forms
  accounted : ∀ k e, pending k e ∨ w.Marked p k e ∨ Kept P w p k e

variable {P w w' : World κ} {p : Nat → Bool} {pending pending' : κ → Handle → Prop} {k k' : κ}
  {e e' : Handle}

theorem marked_of_isSome (hg : (w.get? k e).isSome)
    (h : (w.journal.updatedAt? e (tagOf k)).any p) : w.Marked p k e := by
  unfold Marked
  rw [if_pos hg]
  exact h

theorem marked_of_eq_none (hg : w.get? k e = none) (h : (w.journal.destroyedAt? e).any p) :
    w.Marked p k e := by
  unfold Marked
  rw [hg]
  exact h

theorem Undisturbed.marked (h : Undisturbed w w' p k e) (hm : w.Marked p k e) :
    w'.Marked p k e := by
  unfold Marked at hm ⊢
  rw [h.get?_eq, h.destroyed]
  split
  · next hg =>
    rw [if_pos hg] at hm
    exact h.updated hm
  · next hg =>
    rw [if_neg hg] at hm
    exact hm

theorem Undisturbed.kept (h : Undisturbed w w' p k e) (hk : Kept P w p k e) : Kept P w' p k e :=
  ⟨h.get?_eq.trans hk.get?_eq, fun hd => hk.destroyed (h.destroyed ▸ hd)⟩

namespace Follows

theorem refl (hw : w.WellFormed) : Follows w p (fun _ _ => False) w :=
  ⟨hw, rfl, fun _ _ => Or.inr (Or.inr ⟨rfl, id⟩)⟩

/-- A change marks what it does not leave undisturbed, or it puts it off. -/
theorem step (h : Follows P p pending w) (hw' : w'.WellFormed) (hf : w'.forms = w.forms)
    (hstep : ∀ k e, w'.Marked p k e ∨ pending' k e ∨
      (pending k e → pending' k e) ∧ Undisturbed w w' p k e) :
    Follows P p pending' w' := by
  refine ⟨hw', hf.trans h.forms_eq, fun k e => ?_⟩
  rcases hstep k e with hm | hp | ⟨hp, hu⟩
  · exact Or.inr (Or.inl hm)
  · exact Or.inl hp
  · rcases h.accounted k e with hpend | hm | hk
    · exact Or.inl (hp hpend)
    · exact Or.inr (Or.inl (hu.marked hm))
    · exact Or.inr (Or.inr (hu.kept hk))

theorem weaken (h : Follows P p pending w) (hpend : ∀ k e, pending k e → pending' k e) :
    Follows P p pending' w :=
  ⟨h.wellFormed, h.forms_eq, fun k e => (h.accounted k e).imp_left (hpend k e)⟩

/-! ### The journal alone -/

theorem setVersion (h : Follows P p pending w) (v : Nat) : Follows P p pending (w.setVersion v) :=
  h.step (h.wellFormed.rejournal (fun _ _ h => h) fun _ _ h => h) rfl
    fun _ _ => Or.inr (Or.inr ⟨id, rfl, id, rfl⟩)

/-- Stamps that do not count may be dropped. -/
theorem prune (h : Follows P p pending w) {v : Nat} (hv : ∀ u, p u → v < u) :
    Follows P p pending (w.prune v) := by
  have hany : ∀ o : Option Nat, (o.filter (v < ·)).any p = o.any p := by
    intro o
    cases o with
    | none => rfl
    | some u =>
      by_cases hu : v < u
      · simp [Option.filter, hu]
      · have hp : p u = false := Bool.eq_false_iff.mpr fun hp => hu (hv u hp)
        simp [Option.filter, hu, hp]
  refine h.step (Change.wellFormed (.prune v) h.wellFormed) rfl fun k e => Or.inr (Or.inr ⟨id, ?_⟩)
  refine ⟨rfl, fun hu => ?_, ?_⟩
  · change ((w.journal.prune v).updatedAt? e (tagOf k)).any p
    rw [Journal.updatedAt?_prune, hany]
    exact hu
  · change ((w.journal.prune v).destroyedAt? e).any p = _
    rw [Journal.destroyedAt?_prune, hany]

/-! ### Entities -/

theorem enter (h : Follows P p pending w) {pool : SlotPool} (he : w.pool.Enters e pool)
    (hp : pool.WellFormed) : Follows P p pending (w.enter e pool) :=
  h.step (h.wellFormed.enter he hp) rfl fun k e' =>
    Or.inr (Or.inr ⟨id, h.wellFormed.housed.get?_enter he k e', id, rfl⟩)

/-- All components of an entity that goes are marked by its end. -/
theorem leave (h : Follows P p pending w) {pool : SlotPool} (he : w.pool.Leaves e pool)
    (hp : pool.WellFormed) (hnow : p w.journal.now)
    (hpend : ∀ k e', e' ≠ e → pending k e' → pending' k e') :
    Follows P p pending' (w.leave e pool) := by
  refine h.step (h.wellFormed.leave he hp) forms_leave fun k e' => ?_
  have hget := get?_leave he k e'
  have hdestroyed : (w.leave e pool).journal.destroyedAt? e' =
      if e' = e then some w.journal.now else w.journal.destroyedAt? e' :=
    Journal.destroyedAt?_recordDestruction
  have hupdated : (w.leave e pool).journal.updatedAt? e' (tagOf k) =
      if e' = e then none else w.journal.updatedAt? e' (tagOf k) :=
    Journal.updatedAt?_recordDestruction _ _ _ _
  by_cases heq : e' = e
  · rw [if_pos heq] at hget hdestroyed
    refine Or.inl (marked_of_eq_none hget ?_)
    rw [hdestroyed]
    exact hnow
  · rw [if_neg heq] at hget hdestroyed hupdated
    refine Or.inr (Or.inr ⟨hpend k e' heq, hget, fun hu => ?_, ?_⟩)
    · rw [hupdated]
      exact hu
    · rw [hdestroyed]

/-! ### Components -/

omit [DecidableEq κ] in
/-- A record that counts takes the place of one stamp only. -/
theorem any_updatedAt?_recordUpdate {j : Journal} {t t' : TypeTag} (hnow : p j.now)
    (h : (j.updatedAt? e' t').any p) : ((j.recordUpdate e t).updatedAt? e' t').any p := by
  rw [Journal.updatedAt?_recordUpdate]
  split
  · exact hnow
  · exact h

omit [DecidableEq κ] in
theorem any_updatedAt?_recordUpdate_self {j : Journal} {t : TypeTag} (hnow : p j.now) :
    ((j.recordUpdate e t).updatedAt? e t).any p := by
  rw [Journal.updatedAt?_recordUpdate, if_pos ⟨rfl, rfl⟩]
  exact hnow

/-- A component that is written is marked. -/
theorem write (h : Follows P p pending w) (hk : w.isRegistered k) (he : w.isAlive e) (v : Value k)
    (hnow : p w.journal.now) : Follows P p pending (w.write k e (some v)) := by
  refine h.step (h.wellFormed.write hk he (some v)) (forms_rework _) fun k' e' => ?_
  by_cases hkey : k' = k ∧ e' = e
  · obtain ⟨rfl, rfl⟩ := hkey
    have hget := get?_write_self hk he (some v)
    exact Or.inl (marked_of_isSome (Option.isSome_of_eq_some hget)
      (any_updatedAt?_recordUpdate_self hnow))
  · exact Or.inr (Or.inr ⟨id, get?_write_of_ne he (some v) hkey,
      any_updatedAt?_recordUpdate hnow, rfl⟩)

/-- A component that is recorded is marked, and its record is no longer to come. -/
theorem stamp (h : Follows P p pending w) (hk : w.isRegistered k) (hg : (w.get? k e).isSome)
    (hnow : p w.journal.now)
    (hpend : ∀ k' e', ¬ (k' = k ∧ e' = e) → pending k' e' → pending' k' e') :
    Follows P p pending' (w.stamp k e) := by
  refine h.step (h.wellFormed.stamp hk hg) rfl fun k' e' => ?_
  by_cases hkey : k' = k ∧ e' = e
  · obtain ⟨rfl, rfl⟩ := hkey
    exact Or.inl (marked_of_isSome hg (any_updatedAt?_recordUpdate_self hnow))
  · exact Or.inr (Or.inr ⟨hpend k' e' hkey, rfl, any_updatedAt?_recordUpdate hnow, rfl⟩)

/-- An edit in place of one component has its record to come. -/
theorem edit (h : Follows P p pending w) (he : w.isAlive e) (f : Value k → Value k)
    (hown : pending' k e) (hpend : ∀ k' e', pending k' e' → pending' k' e') :
    Follows P p pending' (w.rework k (·.modify e.slot f)) := by
  have hwf := Change.wellFormed (.editAt e.slot f) h.wellFormed
  refine h.step hwf (forms_rework _) fun k' e' => ?_
  by_cases hkey : k' = k ∧ e' = e
  · obtain ⟨rfl, rfl⟩ := hkey
    exact Or.inr (Or.inl hown)
  · exact Or.inr (Or.inr ⟨hpend k' e', get?_rework_modify_of_ne he f hkey, id, rfl⟩)

/-- An edit of a component that is recorded at once. -/
theorem revise (h : Follows P p pending w) (hg : (w.get? k e).isSome) (f : Value k → Value k)
    (hnow : p w.journal.now) :
    Follows P p pending ((w.rework k (·.modify e.slot f)).stamp k e) := by
  have hedited : Follows P p (fun k' e' => (k' = k ∧ e' = e) ∨ pending k' e')
      (w.rework k (·.modify e.slot f)) :=
    h.edit (isAlive_of_get? hg) f (Or.inl ⟨rfl, rfl⟩) fun _ _ => Or.inr
  refine hedited.stamp ?_ ?_ hnow fun k' e' hne hpend => hpend.resolve_left hne
  · rw [isRegistered_rework]
    exact isRegistered_of_get? hg
  · rw [get?_rework_modify_self, Option.isSome_map]
    exact hg

/-- An edit of a whole column has the records of all its components to come. -/
theorem editAll (h : Follows P p pending w) (f : Value k → Value k)
    (hown : ∀ e, (w.get? k e).isSome → pending' k e)
    (hpend : ∀ k' e', pending k' e' → pending' k' e') :
    Follows P p pending' (w.rework k (·.map f)) := by
  have hwf := Change.wellFormed (.editAll f) h.wellFormed
  refine h.step hwf (forms_rework _) fun k' e' => ?_
  by_cases hk : k' = k
  · subst hk
    cases hg : w.get? k' e' with
    | some v => exact Or.inr (Or.inl (hown e' (Option.isSome_of_eq_some hg)))
    | none =>
      have hget : (w.rework k' (·.map f)).get? k' e' = w.get? k' e' := by
        rw [get?_rework_map, hg]
        rfl
      exact Or.inr (Or.inr ⟨hpend k' e', hget, id, rfl⟩)
  · exact Or.inr (Or.inr ⟨hpend k' e', get?_rework_of_ne _ hk, id, rfl⟩)

end Follows
end World
end EntityWorld
