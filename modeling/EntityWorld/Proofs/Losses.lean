/-
# No component is lost without a record

When a living entity loses a component, the journal is to say so: that the component
was removed, and when, and no longer that it was written. Operations tell it at various
moments, and all but one tell it in full. When a component is made in place and the
making comes to nothing (`Operation.Abandons`), the slot has been opened and the write
recorded by then: what was there is gone, and the journal has it as written.

Most operations take nothing away, and what they record as written is there
(`World.Grows`). The end of an entity and the removal of a component are looked at one
by one.

An operation is held to account for its own doing, whatever was done to the world
before. A stale record stays until the component is written, its entity goes or the
record is dropped, and as long as nothing is given up there is none.

Key definitions: `World.Accounts`, `World.Stale`, `Operation.Abandons`, `World.Grows`.
Key theorems: `Outcome.accounts`, `World.stale_of_abandons`,
`World.ReachableBy.not_stale`, `World.Exposed.accounts_unless_abandons`.
-/
import EntityWorld.Proofs.Access
import EntityWorld.Proofs.Records
import Mathlib.Tactic

namespace EntityWorld

variable {κ : Type} [Family κ] [DecidableEq κ]

/-- The value to be made in place is not made, and the entity was there to have it. -/
def Operation.Abandons (w : World κ) : Operation κ → Prop
  | emplace k e make => w.isRegistered k ∧ w.isAlive e ∧ make () = none
  | _ => False

namespace World

section

omit [DecidableEq κ]

/-- A component is on record as written, and is not there. -/
def Stale (w : World κ) (e : Handle) (t : TypeTag) : Prop :=
  (w.journal.updatedAt? e t).isSome ∧ t ∉ w.typesOf e

/-- From one world to another, of a component that a living entity lost there is a record
of its removal, made now, and none of a write; and no record of a write became
stale. -/
structure Accounts (w w' : World κ) : Prop where
  of_lost : ∀ e t, t ∈ w.typesOf e → w'.isAlive e → t ∉ w'.typesOf e →
    w'.journal.removedAt? e t = some w'.journal.now ∧ w'.journal.updatedAt? e t = none
  of_stale : ∀ e t, w'.Stale e t → w.Stale e t

variable {w w' w'' : World κ} {e : Handle} {t : TypeTag} {pool : SlotPool}

theorem stale_iff (hw : w.TagsDistinct) :
    w.Stale e t ↔ (w.journal.updatedAt? e t).isSome ∧ ¬ w.Has e t :=
  and_congr_right fun _ => not_congr (mem_typesOf_iff hw)

/-! ### Changes that take nothing away -/

/-- From one world to another nothing is taken away, and what is on record as written and
was not before is there. -/
structure Grows (w w' : World κ) : Prop where
  has : ∀ e t, w.Has e t → w'.Has e t
  updated : ∀ e t, (w'.journal.updatedAt? e t).isSome →
    (w.journal.updatedAt? e t).isSome ∨ w'.Has e t

theorem Grows.trans (h : w.Grows w') (h' : w'.Grows w'') : w.Grows w'' where
  has e t hh := h'.has e t (h.has e t hh)
  updated e t hu := by
    rcases h'.updated e t hu with hold | hnew
    · exact (h.updated e t hold).imp_right (h'.has e t)
    · exact Or.inr hnew

/-- The components are the same, and at most records of writes were dropped. -/
theorem grows_of_has_iff (hh : ∀ e t, w'.Has e t ↔ w.Has e t)
    (hu : ∀ e t, (w'.journal.updatedAt? e t).isSome → (w.journal.updatedAt? e t).isSome) :
    w.Grows w' :=
  ⟨fun e t => (hh e t).mpr, fun e t h => Or.inl (hu e t h)⟩

theorem grows_refl (w : World κ) : w.Grows w := grows_of_has_iff (fun _ _ => Iff.rfl) fun _ _ => id

/-- Nothing needs to be accounted for. -/
theorem Grows.accounts (h : w.Grows w') (hw : w.TagsDistinct) (hw' : w'.TagsDistinct) :
    w.Accounts w' where
  of_lost e t hmem _ hlost :=
    (hlost ((mem_typesOf_iff hw').mpr (h.has e t ((mem_typesOf_iff hw).mp hmem)))).elim
  of_stale e t hs := by
    rw [stale_iff hw'] at hs
    rw [stale_iff hw]
    exact ⟨(h.updated e t hs.1).resolve_right hs.2, fun hh => hs.2 (h.has e t hh)⟩

theorem grows_enter (he : w.pool.Enters e pool) : w.Grows (w.enter e pool) where
  has _ _ hh := ⟨he.isAlive_iff.mpr (Or.inr hh.1), hh.2⟩
  updated _ _ := Or.inl

/-- Who goes takes the records along. -/
theorem accounts_leave (hw : w.TagsDistinct) (hw' : (w.leave e pool).TagsDistinct)
    (he : w.pool.Leaves e pool) : w.Accounts (w.leave e pool) where
  of_lost e' t hmem ha hlost := by
    have hstays : (w.leave e pool).Has e' t :=
      (has_leave_iff he).mpr ⟨(he.isAlive_iff.mp ha).1, (mem_typesOf_iff hw).mp hmem⟩
    exact (hlost ((mem_typesOf_iff hw').mpr hstays)).elim
  of_stale e' t hs := by
    rw [stale_iff hw', has_leave_iff he] at hs
    obtain ⟨hu, hnot⟩ := hs
    change ((w.journal.recordDestruction e).updatedAt? e' t).isSome at hu
    rw [Journal.updatedAt?_recordDestruction, isSome_ite_none] at hu
    exact (stale_iff hw).mpr ⟨hu.2, fun hh => hnot ⟨hu.1, hh⟩⟩

end

variable {w : World κ} {k : κ} {e : Handle} {t : TypeTag}

theorem grows_write (hw : w.TagsDistinct) (hk : w.isRegistered k) (he : w.isAlive e)
    (v : Value k) : w.Grows (w.write k e (some v)) where
  has _ _ hh := (has_write_iff hw hk he v).mpr (Or.inr hh)
  updated e' t hu := by
    change ((w.journal.recordUpdate e (tagOf k)).updatedAt? e' t).isSome at hu
    rw [Journal.updatedAt?_recordUpdate, isSome_ite] at hu
    rcases hu with hown | hold
    · exact Or.inr ((has_write_iff hw hk he v).mpr (Or.inl hown))
    · exact Or.inl hold

theorem grows_stamp (hw : w.TagsDistinct) (hk : w.isRegistered k) (hg : (w.get? k e).isSome) :
    w.Grows (w.stamp k e) where
  has _ _ := id
  updated e' t hu := by
    change ((w.journal.recordUpdate e (tagOf k)).updatedAt? e' t).isSome at hu
    rw [Journal.updatedAt?_recordUpdate, isSome_ite] at hu
    rcases hu with ⟨rfl, rfl⟩ | hold
    · have he : w.isAlive e' := isAlive_of_get? hg
      exact Or.inr ⟨he, (holds_iff_get? hw hk he).trans hg⟩
    · exact Or.inl hold

theorem grows_replay (hp : w.pool.WellFormed) (hw : w.TagsDistinct) {xs : List SnapshotEntry}
    (hr : ∀ x ∈ xs, w.Replayable x) : w.Grows (w.replay xs) :=
  (replay_induction (motive := fun _ u => u.TagsDistinct ∧ w.Grows u) hp hr []
    ⟨hw, grows_refl w⟩ (fun hu he _ => ⟨hu.1, hu.2.trans (grows_enter he)⟩)
    fun v hu hk he =>
      ⟨tagsDistinct_rework hu.1 _, hu.2.trans (grows_write hu.1 hk he v)⟩).2

/-! ### What is taken away -/

/-- A component that is discarded is one that the journal has as removed. -/
theorem records_discard (hg : (w.get? k e).isSome) :
    (w.discard k e).journal.removedAt? e (tagOf k) = some (w.discard k e).journal.now ∧
      (w.discard k e).journal.updatedAt? e (tagOf k) = none := by
  have hj : (w.discard k e).journal = w.journal.recordRemoval e (tagOf k) := if_pos hg
  rw [hj, Journal.removedAt?_recordRemoval, Journal.updatedAt?_recordRemoval]
  exact ⟨if_pos ⟨rfl, rfl⟩, if_pos ⟨rfl, rfl⟩⟩

theorem accounts_discard (hw : w.TagsDistinct) (hk : w.isRegistered k) (he : w.isAlive e) :
    w.Accounts (w.discard k e) := by
  have hw' : (w.discard k e).TagsDistinct := tagsDistinct_rework hw _
  refine ⟨fun e' t hmem _ hlost => ?_, fun e' t hs => ?_⟩
  · have hhas := (mem_typesOf_iff hw).mp hmem
    rw [mem_typesOf_iff hw', has_discard_iff hw hk he, not_and, not_imp_not] at hlost
    obtain ⟨rfl, rfl⟩ := hlost hhas
    exact records_discard ((holds_iff_get? hw hk he).symm.trans hhas.2)
  · rw [stale_iff hw', has_discard_iff hw hk he] at hs
    obtain ⟨hu, hnot⟩ := hs
    by_cases hg : (w.get? k e).isSome
    · have hj : (w.discard k e).journal = w.journal.recordRemoval e (tagOf k) := if_pos hg
      rw [hj, Journal.updatedAt?_recordRemoval, isSome_ite_none] at hu
      exact (stale_iff hw).mpr ⟨hu.2, fun hh => hnot ⟨hu.1, hh⟩⟩
    · -- nothing was there, so nothing is taken away and the journal does not hear of it
      have hj : (w.discard k e).journal = w.journal := if_neg hg
      rw [hj] at hu
      refine (stale_iff hw).mpr ⟨hu, fun hh => hnot ⟨?_, hh⟩⟩
      rintro ⟨rfl, rfl⟩
      exact hg ((holds_iff_get? hw hk he).symm.trans hh.2)

end World

/-! ### Operations -/

namespace Outcome

open World

variable {w w' : World κ} {op : Operation κ} {xs : List Event}

/-- What is not given up is accounted for. -/
theorem accounts (h : Outcome w op xs w') (hp : w.pool.WellFormed) (hw : w.TagsDistinct)
    (hw' : w'.TagsDistinct) (hop : ¬ op.Abandons w) : w.Accounts w' := by
  have hgrows : w.Grows w' → w.Accounts w' := fun hg => hg.accounts hw hw'
  cases h with
  | refused => exact hgrows (grows_refl w)
  | spawn hs => exact hgrows (grows_enter (SlotPool.enters_of_spawn hp hs))
  | claim _ hc => exact hgrows (grows_enter (SlotPool.enters_of_claim hp hc).1)
  | kill hk => exact accounts_leave hw hw' (SlotPool.leaves_of_kill hk)
  | restore hr => exact hgrows (grows_replay hp hw hr)
  | add hk he => exact hgrows (grows_write hw hk he _)
  | @emplace k e make hk he =>
    cases hm : make () with
    | none => exact (hop ⟨hk, he, hm⟩).elim
    | some v =>
      rw [hm] at hgrows
      exact hgrows (grows_write hw hk he v)
  | remove hk he => exact accounts_discard hw hk he
  | markDirty hk hg => exact hgrows (grows_stamp hw hk hg)
  | edit | editAt =>
    exact hgrows (grows_of_has_iff
      (fun _ _ => has_rework_iff fun c i => Column.contains_modify c _ i _) fun _ _ => id)
  | editAll =>
    exact hgrows (grows_of_has_iff
      (fun _ _ => has_rework_iff fun c i => Column.contains_map c i _) fun _ _ => id)
  | register | registerSynced =>
    exact hgrows (grows_of_has_iff (fun _ _ => (unchanged_enroll _).has_iff) fun _ _ => id)
  | offer => exact hgrows (grows_of_has_iff (fun _ _ => has_offer_iff _) fun _ _ => id)
  | nameLabel | bindLabel | createLabel | unbindLabels | setVersion =>
    exact hgrows (grows_of_has_iff (fun _ _ => Iff.rfl) fun _ _ => id)
  | prune =>
    refine hgrows (grows_of_has_iff (fun _ _ => Iff.rfl) fun e t hu => ?_)
    change ((w.journal.prune _).updatedAt? e t).isSome at hu
    rw [Journal.updatedAt?_prune] at hu
    exact Option.isSome_of_isSome_filter _ _ hu
  | forget =>
    exact hgrows (grows_of_has_iff (fun _ _ => Iff.rfl)
      fun _ _ => Journal.isSome_updatedAt?_of_forget)

end Outcome

namespace World

variable {w : World κ} {op : Operation κ} {k : κ} {e : Handle}

theorem Exposed.accounts (hw : w.Exposed) (hop : ¬ op.Abandons w) : w.Accounts (op.apply w) :=
  (op.outcome_apply hw.pool_wellFormed).accounts hw.pool_wellFormed hw.tagsDistinct
    (hw.apply op).tagsDistinct hop

/-- As long as nothing is given up, what has a record of a write is there. -/
theorem ReachableBy.not_stale (h : ReachableBy (fun w op => ¬ op.Abandons w) w) :
    ∀ e t, ¬ w.Stale e t := by
  induction h with
  | start hs =>
    intro e t hstale
    rw [eq_of_ofSettings? hs] at hstale
    simp [Stale, Journal.updatedAt?] at hstale
  | step hw hop ih => exact fun e t hstale => ih e t ((hw.exposed.accounts hop).of_stale e t hstale)

/-- What is given up is on record as written now, and is not there. -/
theorem stale_of_abandons (hw : w.TagsDistinct) {make : Unit → Option (Value k)}
    (hop : (Operation.emplace k e make).Abandons w) :
    ((Operation.emplace k e make).apply w).isAlive e ∧
      ((Operation.emplace k e make).apply w).Stale e (tagOf k) ∧
      ((Operation.emplace k e make).apply w).journal.updatedAt? e (tagOf k) =
        some w.journal.now ∧
      ((Operation.emplace k e make).apply w).journal.removedAt? e (tagOf k) = none := by
  obtain ⟨hk, he, hm⟩ := hop
  have hdone : (Operation.emplace k e make).apply w = w.write k e none := by
    have heq := emplace_eq k e make w
    rw [refusal?_eq_none_iff.mpr ⟨hk, he⟩, hm] at heq
    exact after_of_ok heq
  have hwritten : (w.write k e none).journal.updatedAt? e (tagOf k) = some w.journal.now := by
    change (w.journal.recordUpdate e (tagOf k)).updatedAt? e (tagOf k) = some w.journal.now
    rw [Journal.updatedAt?_recordUpdate, if_pos ⟨rfl, rfl⟩]
  have htags : (w.write k e none).TagsDistinct := tagsDistinct_rework hw _
  rw [hdone]
  refine ⟨he, ?_, hwritten, ?_⟩
  · rw [stale_iff htags, hwritten]
    refine ⟨rfl, fun hh => ?_⟩
    have hholds := hh.2
    rw [holds_write hw hk, if_pos ⟨rfl, rfl⟩] at hholds
    cases hholds
  · change (w.journal.recordUpdate e (tagOf k)).removedAt? e (tagOf k) = none
    rw [Journal.removedAt?_recordUpdate, if_pos ⟨rfl, rfl⟩]

/-- **No component is lost without a record, but one that was not made.** Whatever was done
to a world before, an operation that does not give up the making of a component accounts
for every component that a living entity loses by it, and lets no record of a write
become stale. One that does give it up leaves a component that is not there on record as
written now, and not as removed. So in a history in which nothing was given up, an
operation leaves no record of a write of what is not there exactly if it does not give
up either. -/
theorem Exposed.accounts_unless_abandons (hw : w.Exposed) (op : Operation κ) :
    (¬ op.Abandons w → w.Accounts (op.apply w)) ∧
    (op.Abandons w → ∃ k e make, op = .emplace k e make ∧ (op.apply w).isAlive e ∧
      (op.apply w).Stale e (tagOf k) ∧
      (op.apply w).journal.updatedAt? e (tagOf k) = some w.journal.now ∧
      (op.apply w).journal.removedAt? e (tagOf k) = none) ∧
    (ReachableBy (fun w op => ¬ op.Abandons w) w →
      ((∀ e t, ¬ (op.apply w).Stale e t) ↔ ¬ op.Abandons w)) := by
  have hgone : op.Abandons w → ∃ k e make, op = .emplace k e make ∧ (op.apply w).isAlive e ∧
      (op.apply w).Stale e (tagOf k) ∧
      (op.apply w).journal.updatedAt? e (tagOf k) = some w.journal.now ∧
      (op.apply w).journal.removedAt? e (tagOf k) = none := by
    intro hop
    cases op with
    | emplace k e make => exact ⟨k, e, make, rfl, stale_of_abandons hw.tagsDistinct hop⟩
    | _ => exact hop.elim
  refine ⟨hw.accounts, hgone, fun hclean => ⟨fun hnone hop => ?_, fun hop => ?_⟩⟩
  · obtain ⟨k, e, -, -, -, hstale, -⟩ := hgone hop
    exact hnone e (tagOf k) hstale
  · exact (hclean.step hop).not_stale

/-- One entity with a particle, and three versions later. -/
def loneParticle : World (Stocked Empty) :=
  run {} [.registerSynced .particle Particle.codec, .spawn, .add .particle ⟨0, 0⟩ {},
    .setVersion 3]

/-- Taking the particle away is accounted for, and leaves no stale record. -/
theorem accounts_unless_abandons_loneParticle :
    tagOf (.particle : Stocked Empty) ∈ loneParticle.typesOf ⟨0, 0⟩ ∧
      loneParticle.Accounts ((Operation.remove .particle ⟨0, 0⟩).apply loneParticle) ∧
      ∀ e t, ¬ ((Operation.remove .particle ⟨0, 0⟩).apply loneParticle).Stale e t := by
  have hallowed : Along (fun w op => ¬ op.Abandons w) ({} : World (Stocked Empty))
      [.registerSynced .particle Particle.codec, .spawn, .add .particle ⟨0, 0⟩ {},
        .setVersion 3] := by
    simp [Along, Operation.Abandons]
  have hclean : ReachableBy (fun w op => ¬ op.Abandons w) loneParticle :=
    ReachableBy.run (.start (s := {}) rfl) hallowed
  obtain ⟨haccounts, -, hnone⟩ :=
    hclean.exposed.accounts_unless_abandons (.remove .particle ⟨0, 0⟩)
  exact ⟨by decide +kernel, haccounts id, (hnone hclean).mpr id⟩

/-- Putting another particle in its place that is not made takes it away too, and the
journal has it as written. -/
theorem not_accounts_loneParticle : loneParticle.Reachable ∧
    ¬ loneParticle.Accounts
      ((Operation.emplace .particle ⟨0, 0⟩ fun _ => none).apply loneParticle) := by
  refine ⟨ReachableBy.run (.start (s := {}) rfl) ?_, fun h => ?_⟩
  · simp [Along]
  · have hlost := h.of_lost ⟨0, 0⟩ (tagOf (.particle : Stocked Empty)) (by decide +kernel)
      (by decide +kernel) (by decide +kernel)
    have hnone : ((Operation.emplace (.particle : Stocked Empty) ⟨0, 0⟩
        fun _ => none).apply loneParticle).journal.removedAt? ⟨0, 0⟩
          (tagOf (.particle : Stocked Empty)) = none := by decide +kernel
    rw [hnone] at hlost
    cases hlost.1

end World
end EntityWorld
