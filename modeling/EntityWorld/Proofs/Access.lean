/-
# Worlds laid open

A world hands out its columns, its labels and its journal, and whoever gets at
one of them may leave anything in its place. What can be done to a world from
outside is then an operation or such a change of a part (`Access`). This is all
that can be done, and it does not reach the slots: they are changed by
operations only, so the pool of such a world is well-formed however the other
parts were treated (`Exposed.pool_wellFormed`).

Key definitions: `Access`, `World.undergo`, `World.Exposed`.
Key theorems: `World.Exposed.pool_wellFormed`, `World.ReachableBy.exposed`.
-/
import EntityWorld.Proofs.WellFormed
import Mathlib.Tactic

namespace EntityWorld

variable {κ : Type} [Family κ] [DecidableEq κ]

/-- What may be done to a world from outside. -/
inductive Access (κ : Type) [Family κ] where
  | operate (op : Operation κ)
  /-- Any change of a column, whoever lives in its slots. -/
  | column (k : κ) (f : Column (Value k) → Column (Value k))
  | labels (f : Labels → Labels)
  | journal (f : Journal → Journal)

/-- The world after an access. -/
def Access.apply : Access κ → World κ → World κ
  | operate op, w => op.apply w
  | column k f, w => after (World.modifyColumn k f) w
  | labels f, w => { w with labels := f w.labels }
  | journal f, w => { w with journal := f w.journal }

namespace World

/-- The world after some accesses, one after another. -/
def undergo (w : World κ) (as : List (Access κ)) : World κ := as.foldl (fun w a => a.apply w) w

variable {w : World κ}

@[simp] theorem undergo_nil : w.undergo [] = w := rfl

@[simp] theorem undergo_cons (a : Access κ) (as : List (Access κ)) :
    w.undergo (a :: as) = (a.apply w).undergo as := rfl

theorem undergo_append (as bs : List (Access κ)) :
    w.undergo (as ++ bs) = (w.undergo as).undergo bs := List.foldl_append

/-- The worlds that accesses lead to. -/
def Exposed (w : World κ) : Prop :=
  ∃ s, ∃ w₀ : World κ, ∃ as, ofSettings? s = some w₀ ∧ w = w₀.undergo as

theorem exposed_undergo {s : Settings} (hs : ofSettings? s = some w) (as : List (Access κ)) :
    (w.undergo as).Exposed := ⟨s, w, as, hs, rfl⟩

theorem Exposed.apply (h : w.Exposed) (op : Operation κ) : (op.apply w).Exposed := by
  obtain ⟨s, w₀, as, hs, rfl⟩ := h
  refine ⟨s, w₀, as ++ [.operate op], hs, ?_⟩
  rw [undergo_append]
  rfl

/-- Where operations lead is among them. -/
theorem ReachableBy.exposed {allow : World κ → Operation κ → Prop} (h : ReachableBy allow w) :
    w.Exposed := by
  induction h with
  | start hs => exact exposed_undergo hs []
  | step _ _ ih => exact ih.apply _

theorem after_modifyColumn (k : κ) (f : Column (Value k) → Column (Value k)) :
    after (modifyColumn k f) w = if w.isRegistered k then w.rework k f else w := by
  by_cases hk : w.isRegistered k
  · rw [after_of_ok (modifyColumn_of_isRegistered hk f), if_pos hk]
  · have hm : modifyColumn k f w = .error (.notRegistered (typeName k)) w := if_neg hk
    rw [after_of_error hm, if_neg hk]

/-- A change of a column leaves the slots alone. -/
theorem pool_modifyColumn (k : κ) (f : Column (Value k) → Column (Value k)) :
    (after (modifyColumn k f) w).pool = w.pool := by
  rw [after_modifyColumn]
  split <;> rfl

theorem pool_wellFormed_access (hw : w.pool.WellFormed) (a : Access κ) :
    (a.apply w).pool.WellFormed := by
  cases a with
  | operate op => exact Change.keeps_row Change.pool_wellFormed (Change.row_apply op hw) hw
  | column k f =>
    have hp : (Access.column k f).apply w = after (modifyColumn k f) w := rfl
    rw [hp, pool_modifyColumn]
    exact hw
  | labels | journal => exact hw

theorem pool_wellFormed_undergo (hw : w.pool.WellFormed) (as : List (Access κ)) :
    (w.undergo as).pool.WellFormed := by
  induction as generalizing w with
  | nil => exact hw
  | cons a as ih => exact ih (pool_wellFormed_access hw a)

theorem tagsDistinct_access (hp : w.pool.WellFormed) (hw : w.TagsDistinct) (a : Access κ) :
    (a.apply w).TagsDistinct := by
  cases a with
  | operate op => exact Change.keeps_row Change.tagsDistinct (Change.row_apply op hp) hw
  | column k f =>
    have hc : (Access.column k f).apply w = after (modifyColumn k f) w := rfl
    rw [hc, after_modifyColumn]
    split
    · exact tagsDistinct_rework hw f
    · exact hw
  | labels | journal => exact hw

theorem tagsDistinct_undergo (hp : w.pool.WellFormed) (hw : w.TagsDistinct)
    (as : List (Access κ)) : (w.undergo as).TagsDistinct := by
  induction as generalizing w with
  | nil => exact hw
  | cons a as ih => exact ih (pool_wellFormed_access hp a) (tagsDistinct_access hp hw a)

theorem Exposed.pool_wellFormed (h : w.Exposed) : w.pool.WellFormed := by
  obtain ⟨s, w₀, as, hs, rfl⟩ := h
  exact pool_wellFormed_undergo (wellFormed_of_ofSettings? hs).pool as

theorem Exposed.tagsDistinct (h : w.Exposed) : w.TagsDistinct := by
  obtain ⟨s, w₀, as, hs, rfl⟩ := h
  have hw := wellFormed_of_ofSettings? hs
  exact tagsDistinct_undergo hw.pool hw.tagsDistinct as

end World
end EntityWorld
