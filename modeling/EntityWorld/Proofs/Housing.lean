/-
# Components and who they belong to

A component in a slot belongs to whoever lives there, so that there is none in a
vacant slot (`World.Housed`). This does not depend on what the labels and the
journal say, and it is all that is asked of a world when its columns are gone
through slot by slot and the slots are taken for the entities in them. Every
change keeps it.

Key definition: `World.Housed`.
Key theorems: `Change.tagsDistinct`, `Change.housed`, `World.Housed.get?_enter`.
-/
import EntityWorld.Proofs.Outcomes
import Mathlib.Tactic

namespace EntityWorld

variable {κ : Type} [Family κ]

namespace World

variable {w : World κ} {e : Handle} {pool : SlotPool}

/-! ### Tags stay distinct -/

theorem tagsDistinct_of_map {w' : World κ} (hw : w.TagsDistinct)
    {f : Registration κ → Registration κ} (hf : ∀ r, (f r).tag = r.tag)
    (h : w'.registrations = w.registrations.map f) : w'.TagsDistinct := by
  have ht : w'.registrations.map (·.tag) = w.registrations.map (·.tag) := by
    rw [h, List.map_map]
    exact List.map_congr_left fun r _ => hf r
  exact (congrArg List.Nodup ht).mpr hw

theorem tagsDistinct_rework [DecidableEq κ] {k : κ} (hw : w.TagsDistinct)
    (f : Column (Value k) → Column (Value k)) : (w.rework k f).TagsDistinct :=
  tagsDistinct_of_map hw (fun _ => Registration.tag_modifyColumn) rfl

theorem tagsDistinct_enroll (hw : w.TagsDistinct) {k : κ} (codec : Option (Codec (Value k)))
    (ht : w.ofTag? (tagOf k) = none) : (w.enroll k codec).TagsDistinct := by
  have hnew : ∀ r ∈ w.registrations, r.tag ≠ tagOf k := by
    simpa using List.find?_eq_none.mp ht
  have hmap : (w.enroll k codec).registrations.map (·.tag) =
      w.registrations.map (·.tag) ++ [tagOf k] := List.map_append
  refine (congrArg List.Nodup hmap).mpr (List.nodup_append.mpr ⟨hw, by simp, ?_⟩)
  rintro t hmem t' ht' rfl
  obtain ⟨r, hr, rfl⟩ := List.mem_map.mp hmem
  exact hnew r hr (List.mem_singleton.mp ht')

/-! ### Components stay housed -/

/-- Every component is in a slot where somebody lives. -/
structure Housed (w : World κ) : Prop where
  pool : w.pool.WellFormed
  tagsDistinct : w.TagsDistinct
  live_of_holds : ∀ i t, w.holds i t → (w.pool.slotAt i).live = true

namespace Housed

/-- A vacant slot holds nothing. -/
theorem holds_eq_false (hw : w.Housed) {i : Nat} (h : (w.pool.slotAt i).live = false)
    (t : TypeTag) : w.holds i t = false :=
  Bool.eq_false_iff.mpr fun hh => Bool.false_ne_true (h.symm.trans (hw.live_of_holds i t hh))

theorem enter (hw : w.Housed) (he : w.pool.Enters e pool) (hp : pool.WellFormed) :
    (w.enter e pool).Housed where
  pool := hp
  tagsDistinct := hw.tagsDistinct
  live_of_holds i t h := by
    have hl : (w.pool.slotAt i).live = true := hw.live_of_holds i t h
    change (pool.slotAt i).live = true
    rw [he.slotAt_eq]
    split
    · rfl
    · exact hl

theorem leave (hw : w.Housed) (he : w.pool.Leaves e pool) (hp : pool.WellFormed) :
    (w.leave e pool).Housed where
  pool := hp
  tagsDistinct := tagsDistinct_of_map hw.tagsDistinct (fun _ => Registration.tag_erase _ _) rfl
  live_of_holds i t h := by
    rw [holds_leave] at h
    split at h
    · cases h
    · next hi =>
      change (pool.slotAt i).live = true
      rw [he.slotAt_eq, if_neg hi]
      exact hw.live_of_holds i t h

theorem enroll (hw : w.Housed) {k : κ} (codec : Option (Codec (Value k)))
    (ht : w.ofTag? (tagOf k) = none) : (w.enroll k codec).Housed where
  pool := hw.pool
  tagsDistinct := tagsDistinct_enroll hw.tagsDistinct codec ht
  live_of_holds i t h := hw.live_of_holds i t (holds_enroll codec ▸ h)

variable [DecidableEq κ] {k : κ}

theorem rework (hw : w.Housed) {f : Column (Value k) → Column (Value k)}
    (hf : ∀ c i, (f c).contains i = c.contains i) : (w.rework k f).Housed where
  pool := hw.pool
  tagsDistinct := tagsDistinct_rework hw.tagsDistinct f
  live_of_holds i t h := hw.live_of_holds i t (holds_rework (fun _ c => hf c i) ▸ h)

theorem write (hw : w.Housed) (hk : w.isRegistered k) (he : w.isAlive e) (o : Option (Value k)) :
    (w.write k e o).Housed where
  pool := hw.pool
  tagsDistinct := tagsDistinct_rework hw.tagsDistinct _
  live_of_holds i t h := by
    rw [holds_write hw.tagsDistinct hk] at h
    split at h
    · next hi =>
      rw [hi.1]
      exact (SlotPool.isAlive_iff_slotAt.mp he).1
    · exact hw.live_of_holds i t h

theorem discard (hw : w.Housed) (hk : w.isRegistered k) (e : Handle) : (w.discard k e).Housed where
  pool := hw.pool
  tagsDistinct := tagsDistinct_rework hw.tagsDistinct _
  live_of_holds i t h := by
    rw [holds_discard hw.tagsDistinct hk] at h
    split at h
    · cases h
    · exact hw.live_of_holds i t h

theorem offer (hw : w.Housed) (codec : Option (Codec (Value k))) : (w.offer k codec).Housed where
  pool := hw.pool
  tagsDistinct := tagsDistinct_of_map hw.tagsDistinct (fun _ => Registration.tag_offerCodec) rfl
  live_of_holds i t h := hw.live_of_holds i t (holds_offer codec ▸ h)

/-- A newcomer has no value, as a dead entity has none. -/
theorem get?_enter (hw : w.Housed) (he : w.pool.Enters e pool) (k : κ) (e' : Handle) :
    (w.enter e pool).get? k e' = w.get? k e' := by
  by_cases heq : e' = e
  · subst heq
    have hdead : w.get? k e' = none := if_neg (he.not_isAlive rfl)
    have hnew : (w.enter e' pool).isAlive e' := he.isAlive_iff.mpr (Or.inl rfl)
    have htags : (w.enter e' pool).TagsDistinct := hw.tagsDistinct
    rw [hdead]
    by_cases hk : (w.enter e' pool).isRegistered k
    · have hnone := (holds_iff_get? htags hk hnew).symm.trans (hw.holds_eq_false he.vacant (tagOf k))
      exact Option.not_isSome_iff_eq_none.mp (ne_true_of_eq_false hnone)
    · exact get?_eq_none_of_not_isRegistered hk
  · have halive : (w.enter e pool).isAlive e' ↔ w.isAlive e' :=
      he.isAlive_iff.trans (or_iff_right heq)
    unfold get?
    exact if_congr halive rfl rfl

end Housed
end World

/-! ### Every change -/

variable [DecidableEq κ] {op : Operation κ} {w w' : World κ}

theorem Change.tagsDistinct (h : Change op w w') (hw : w.TagsDistinct) : w'.TagsDistinct := by
  cases h with
  | leave => exact World.tagsDistinct_of_map hw (fun _ => Registration.tag_erase _ _) rfl
  | write => exact World.tagsDistinct_rework hw _
  | discard => exact World.tagsDistinct_rework hw _
  | edit => exact World.tagsDistinct_rework hw _
  | editAt => exact World.tagsDistinct_rework hw _
  | editAll => exact World.tagsDistinct_rework hw _
  | enroll codec ht => exact World.tagsDistinct_enroll hw codec ht
  | offer codec => exact World.tagsDistinct_of_map hw (fun _ => Registration.tag_offerCodec) rfl
  | _ => exact hw

theorem Change.housed (h : Change op w w') (hw : w.Housed) : w'.Housed := by
  cases h with
  | enter he hp => exact hw.enter he hp
  | leave he hp => exact hw.leave he hp
  | write o hk he => exact hw.write hk he o
  | discard hk he => exact hw.discard hk _
  | edit f hk hg => exact hw.rework fun c i => Column.contains_modify c _ i f
  | editAt j f => exact hw.rework fun c i => Column.contains_modify c j i f
  | editAll f => exact hw.rework fun c i => Column.contains_map c i f
  | enroll codec ht => exact hw.enroll codec ht
  | offer codec => exact hw.offer (some codec)
  | stamp | relabel | setVersion | prune | forget =>
    exact ⟨hw.pool, hw.tagsDistinct, hw.live_of_holds⟩

end EntityWorld
