/-
# Well-formed worlds

The pool, the columns, the labels and the journal of a world agree on who is
alive: a component is only in a live slot, a label is bound to a live entity
only, and the journal has the stamps of live entities' components only. Every
change keeps this, so that it holds of every reachable world, and a new entity
finds nothing in its slot (`Reachable.components_live`), whoever lived there
before it.

That stamps are of live entities makes the last point independent of how many
generations a slot has seen: an entity that goes takes its stamps along.

Key definitions: `World.WellFormed`.
Key theorems: `Change.wellFormed`, `World.ReachableBy.wellFormed`,
`World.Reachable.components_live`.
-/
import EntityWorld.Proofs.Housing
import Mathlib.Tactic

namespace EntityWorld

namespace Journal

variable {j : Journal} {x : Key} {e : Handle} {t : TypeTag}

theorem isSome_updatedAt?_of_forget (h : ((j.forget x).updatedAt? e t).isSome) :
    (j.updatedAt? e t).isSome := by
  cases x with
  | updated e' t' =>
    simp only [forget, forgetUpdate, updatedAt?, Std.ExtTreeMap.getElem?_erase] at h
    split at h
    · cases h
    · exact h
  | _ => exact h

theorem isSome_removedAt?_of_forget (h : ((j.forget x).removedAt? e t).isSome) :
    (j.removedAt? e t).isSome := by
  cases x with
  | removed e' t' =>
    simp only [forget, forgetRemoval, removedAt?, Std.ExtTreeMap.getElem?_erase] at h
    split at h
    · cases h
    · exact h
  | _ => exact h

end Journal

variable {κ : Type} [Family κ]

namespace World

/-- The parts of a world agree on who is alive. -/
structure WellFormed (w : World κ) : Prop where
  pool : w.pool.WellFormed
  tagsDistinct : w.TagsDistinct
  live_of_holds : ∀ i t, w.holds i t → (w.pool.slotAt i).live = true
  size_le : ∀ r ∈ w.registrations, r.column.size ≤ w.pool.slots.size
  isAlive_of_binds : ∀ e, w.labels.Binds e → w.isAlive e
  isAlive_of_updated : ∀ e t, (w.journal.updatedAt? e t).isSome → w.isAlive e
  of_removed : ∀ e t, (w.journal.removedAt? e t).isSome → w.isAlive e ∧ w.holds e.slot t = false

namespace WellFormed

variable {w : World κ} {e : Handle} {pool : SlotPool}

theorem empty (s : Settings) :
    WellFormed (κ := κ) { settings := s, pool := { reuse := s.reuse } } where
  pool := SlotPool.wellFormed_empty s.reuse
  tagsDistinct := List.nodup_nil
  live_of_holds _ _ h := by cases h
  size_le _ hr := by cases hr
  isAlive_of_binds _ h := by simp [Labels.Binds] at h
  isAlive_of_updated _ _ h := by simp [Journal.updatedAt?] at h
  of_removed _ _ h := by simp [Journal.removedAt?] at h

/-- The slots that hold a component are open. -/
theorem lt_size_of_isAlive (he : w.isAlive e) : e.slot < w.pool.slots.size :=
  SlotPool.lt_size_of_live (SlotPool.isAlive_iff_slotAt.mp he).1

theorem housed (hw : w.WellFormed) : w.Housed := ⟨hw.pool, hw.tagsDistinct, hw.live_of_holds⟩

/-! ### Each change keeps it -/

theorem enter (hw : w.WellFormed) (he : w.pool.Enters e pool) (hp : pool.WellFormed) :
    (w.enter e pool).WellFormed where
  pool := hp
  tagsDistinct := hw.tagsDistinct
  live_of_holds := (hw.housed.enter he hp).live_of_holds
  size_le r hr := le_trans (hw.size_le r hr) he.size_le
  isAlive_of_binds e' h := he.isAlive_iff.mpr (Or.inr (hw.isAlive_of_binds e' h))
  isAlive_of_updated e' t h := he.isAlive_iff.mpr (Or.inr (hw.isAlive_of_updated e' t h))
  of_removed e' t h := by
    obtain ⟨ha, hh⟩ := hw.of_removed e' t h
    exact ⟨he.isAlive_iff.mpr (Or.inr ha), hh⟩

theorem leave (hw : w.WellFormed) (he : w.pool.Leaves e pool) (hp : pool.WellFormed) :
    (w.leave e pool).WellFormed where
  pool := hp
  tagsDistinct := (hw.housed.leave he hp).tagsDistinct
  live_of_holds := (hw.housed.leave he hp).live_of_holds
  size_le r' hr' := by
    obtain ⟨r, hr, rfl⟩ := List.mem_map.mp hr'
    have hs : pool.slots.size = w.pool.slots.size := he.size_eq
    change (r.erase e.slot).column.size ≤ pool.slots.size
    rw [Registration.size_erase, hs]
    exact hw.size_le r hr
  isAlive_of_binds e' h := by
    obtain ⟨hb, hne⟩ := Labels.binds_unbind.mp h
    exact he.isAlive_iff.mpr ⟨hne, hw.isAlive_of_binds e' hb⟩
  isAlive_of_updated e' t h := by
    change ((w.journal.recordDestruction e).updatedAt? e' t).isSome at h
    rw [Journal.updatedAt?_recordDestruction] at h
    split at h
    · cases h
    · next hne => exact he.isAlive_iff.mpr ⟨hne, hw.isAlive_of_updated e' t h⟩
  of_removed e' t h := by
    change ((w.journal.recordDestruction e).removedAt? e' t).isSome at h
    rw [Journal.removedAt?_recordDestruction] at h
    split at h
    · cases h
    · next hne =>
      obtain ⟨ha, hh⟩ := hw.of_removed e' t h
      refine ⟨he.isAlive_iff.mpr ⟨hne, ha⟩, ?_⟩
      rw [holds_leave, hh]
      exact ite_self false

theorem enroll (hw : w.WellFormed) {k : κ} (codec : Option (Codec (Value k)))
    (ht : w.ofTag? (tagOf k) = none) : (w.enroll k codec).WellFormed where
  pool := hw.pool
  tagsDistinct := tagsDistinct_enroll hw.tagsDistinct codec ht
  live_of_holds := (hw.housed.enroll codec ht).live_of_holds
  size_le r hr := by
    rcases List.mem_append.mp hr with hr | hr
    · exact hw.size_le r hr
    · cases List.mem_singleton.mp hr
      exact Nat.zero_le _
  isAlive_of_binds := hw.isAlive_of_binds
  isAlive_of_updated := hw.isAlive_of_updated
  of_removed e t h := by
    rw [holds_enroll]
    exact hw.of_removed e t h

theorem relabel (hw : w.WellFormed) {l : Labels}
    (hl : ∀ e, l.Binds e → w.labels.Binds e ∨ w.isAlive e) : WellFormed { w with labels := l } :=
  { hw with
    isAlive_of_binds := fun e h => (hl e h).elim (hw.isAlive_of_binds e) id
    live_of_holds := hw.live_of_holds
    of_removed := hw.of_removed }

/-- Stamps may be dropped, and the clock set. -/
theorem rejournal (hw : w.WellFormed) {j : Journal}
    (hu : ∀ e t, (j.updatedAt? e t).isSome → (w.journal.updatedAt? e t).isSome)
    (hr : ∀ e t, (j.removedAt? e t).isSome → (w.journal.removedAt? e t).isSome) :
    WellFormed { w with journal := j } :=
  { hw with
    live_of_holds := hw.live_of_holds
    isAlive_of_updated := fun e t h => hw.isAlive_of_updated e t (hu e t h)
    of_removed := fun e t h => hw.of_removed e t (hr e t h) }

variable [DecidableEq κ] {k : κ}

/-- A column may grow up to the end of the pool. -/
theorem size_le_rework (hw : w.WellFormed) {f : Column (Value k) → Column (Value k)}
    (hf : ∀ c, (f c).size ≤ max c.size w.pool.slots.size) :
    ∀ r ∈ (w.rework k f).registrations, r.column.size ≤ w.pool.slots.size := by
  intro r' hr'
  obtain ⟨r, hr, rfl⟩ := List.mem_map.mp hr'
  have hs := hw.size_le r hr
  rcases Registration.modifyColumn_cases k f r with ⟨-, h⟩ | ⟨c, codec, rfl, h⟩
  · rw [h]
    exact hs
  · rw [h]
    exact le_trans (hf c) (max_le hs (le_refl _))

theorem rework (hw : w.WellFormed) {f : Column (Value k) → Column (Value k)}
    (hf : ∀ c i, (f c).contains i = c.contains i) (hs : ∀ c, (f c).size = c.size) :
    (w.rework k f).WellFormed where
  pool := hw.pool
  tagsDistinct := tagsDistinct_rework hw.tagsDistinct f
  live_of_holds := (hw.housed.rework hf).live_of_holds
  size_le := size_le_rework hw fun c => (hs c).trans_le (le_max_left _ _)
  isAlive_of_binds := hw.isAlive_of_binds
  isAlive_of_updated := hw.isAlive_of_updated
  of_removed e t h := by
    rw [holds_rework fun _ c => hf c e.slot]
    exact hw.of_removed e t h

theorem write (hw : w.WellFormed) (hk : w.isRegistered k) (he : w.isAlive e)
    (o : Option (Value k)) : (w.write k e o).WellFormed where
  pool := hw.pool
  tagsDistinct := tagsDistinct_rework hw.tagsDistinct _
  live_of_holds := (hw.housed.write hk he o).live_of_holds
  size_le := size_le_rework hw fun c => by
    rw [Column.size_put]
    exact max_le_max (le_refl _) (lt_size_of_isAlive he)
  isAlive_of_binds := hw.isAlive_of_binds
  isAlive_of_updated e' t h := by
    change ((w.journal.recordUpdate e (tagOf k)).updatedAt? e' t).isSome at h
    rw [Journal.updatedAt?_recordUpdate] at h
    split at h
    · next heq => exact heq.1 ▸ he
    · exact hw.isAlive_of_updated e' t h
  of_removed e' t h := by
    change ((w.journal.recordUpdate e (tagOf k)).removedAt? e' t).isSome at h
    rw [Journal.removedAt?_recordUpdate] at h
    split at h
    · cases h
    · next hne =>
      obtain ⟨ha, hh⟩ := hw.of_removed e' t h
      refine ⟨ha, ?_⟩
      rw [holds_write hw.tagsDistinct hk, if_neg, hh]
      rintro ⟨hs, rfl⟩
      exact hne ⟨SlotPool.eq_of_isAlive ha he hs, rfl⟩

theorem discard (hw : w.WellFormed) (hk : w.isRegistered k) (he : w.isAlive e) :
    (w.discard k e).WellFormed where
  pool := hw.pool
  tagsDistinct := tagsDistinct_rework hw.tagsDistinct _
  live_of_holds := (hw.housed.discard hk e).live_of_holds
  size_le := size_le_rework hw fun c => by
    rw [Column.size_erase]
    exact le_max_left _ _
  isAlive_of_binds := hw.isAlive_of_binds
  isAlive_of_updated e' t h := by
    refine hw.isAlive_of_updated e' t ?_
    simp only [World.discard] at h
    split at h
    · rw [Journal.updatedAt?_recordRemoval] at h
      split at h
      · cases h
      · exact h
    · exact h
  of_removed e' t h := by
    -- the journal is written only if there was something to remove
    have hold : e' = e ∧ t = tagOf k ∨ (w.journal.removedAt? e' t).isSome := by
      simp only [World.discard] at h
      split at h
      · rw [Journal.removedAt?_recordRemoval] at h
        split at h
        · next heq => exact Or.inl heq
        · exact Or.inr h
      · exact Or.inr h
    rw [holds_discard hw.tagsDistinct hk]
    rcases hold with ⟨rfl, rfl⟩ | hold
    · exact ⟨he, if_pos ⟨rfl, rfl⟩⟩
    · obtain ⟨ha, hh⟩ := hw.of_removed e' t hold
      refine ⟨ha, ?_⟩
      rw [hh]
      exact ite_self false

theorem stamp (hw : w.WellFormed) (hk : w.isRegistered k) (hg : (w.get? k e).isSome) :
    (w.stamp k e).WellFormed := by
  have he : w.isAlive e := isAlive_of_get? hg
  have hh : w.holds e.slot (tagOf k) = true := (holds_iff_get? hw.tagsDistinct hk he).trans hg
  refine { hw with live_of_holds := hw.live_of_holds, isAlive_of_updated := ?_, of_removed := ?_ }
  · intro e' t h
    change ((w.journal.recordUpdate e (tagOf k)).updatedAt? e' t).isSome at h
    rw [Journal.updatedAt?_recordUpdate] at h
    split at h
    · next heq => exact heq.1 ▸ he
    · exact hw.isAlive_of_updated e' t h
  · intro e' t h
    change ((w.journal.recordUpdate e (tagOf k)).removedAt? e' t).isSome at h
    rw [Journal.removedAt?_recordUpdate] at h
    split at h
    · cases h
    · exact hw.of_removed e' t h

theorem offer (hw : w.WellFormed) (codec : Option (Codec (Value k))) :
    (w.offer k codec).WellFormed where
  pool := hw.pool
  tagsDistinct := (hw.housed.offer codec).tagsDistinct
  live_of_holds := (hw.housed.offer codec).live_of_holds
  size_le r' hr' := by
    obtain ⟨r, hr, rfl⟩ := List.mem_map.mp hr'
    rw [Registration.size_offerCodec]
    exact hw.size_le r hr
  isAlive_of_binds := hw.isAlive_of_binds
  isAlive_of_updated := hw.isAlive_of_updated
  of_removed e t h := by
    rw [holds_offer]
    exact hw.of_removed e t h

end WellFormed
end World

/-! ### Every reachable world is well-formed -/

variable [DecidableEq κ]

theorem Change.wellFormed {op : Operation κ} {w w' : World κ} (h : Change op w w')
    (hw : w.WellFormed) : w'.WellFormed := by
  cases h with
  | enter he hp => exact hw.enter he hp
  | leave he hp => exact hw.leave he hp
  | write o hk he => exact hw.write hk he o
  | discard hk he => exact hw.discard hk he
  | stamp hk hg => exact hw.stamp hk hg
  | edit f hk hg =>
    exact hw.rework (fun c i => Column.contains_modify c _ i f) fun c => Column.size_modify c _ f
  | editAt j f =>
    exact hw.rework (fun c i => Column.contains_modify c j i f) fun c => Column.size_modify c j f
  | editAll f => exact hw.rework (fun c i => Column.contains_map c i f) fun c => Column.size_map c f
  | enroll codec ht => exact hw.enroll codec ht
  | offer codec => exact hw.offer (some codec)
  | relabel hl => exact hw.relabel hl
  | setVersion v => exact hw.rejournal (fun _ _ h => h) fun _ _ h => h
  | prune v =>
    refine hw.rejournal (fun e t h => ?_) fun e t h => ?_
    · rw [Journal.updatedAt?_prune] at h
      exact Option.isSome_of_isSome_filter _ _ h
    · rw [Journal.removedAt?_prune] at h
      exact Option.isSome_of_isSome_filter _ _ h
  | forget x =>
    refine hw.rejournal (fun e t h => ?_) fun e t h => ?_
    · exact Journal.isSome_updatedAt?_of_forget h
    · exact Journal.isSome_removedAt?_of_forget h

namespace World

variable {w : World κ}

/-- Whatever an operation does, it does not harm a world. -/
theorem WellFormed.apply (hw : w.WellFormed) (op : Operation κ) : (op.apply w).WellFormed :=
  Change.keeps_row Change.wellFormed (Change.row_apply op hw.pool) hw

theorem WellFormed.run (hw : w.WellFormed) (ops : List (Operation κ)) : (w.run ops).WellFormed := by
  induction ops generalizing w with
  | nil => exact hw
  | cons op ops ih => exact ih (hw.apply op)

theorem WellFormed.replay (hw : w.WellFormed) {xs : List SnapshotEntry}
    (h : ∀ x ∈ xs, w.Replayable x) : (w.replay xs).WellFormed :=
  Change.keeps_row Change.wellFormed (Change.row_replay (.restore ⟨xs⟩) hw.pool h) hw

theorem WellFormed.restoreEntry (hw : w.WellFormed) {x : SnapshotEntry} (h : w.Replayable x) :
    (after (restoreEntry x) w).WellFormed := by
  have hx : ∀ y ∈ [x], w.Replayable y := by simpa using h
  exact hw.replay hx

omit [DecidableEq κ] in
theorem wellFormed_of_ofSettings? {s : Settings} (hs : ofSettings? s = some w) :
    w.WellFormed := by
  rw [eq_of_ofSettings? hs]
  exact .empty s

theorem ReachableBy.wellFormed {allow : World κ → Operation κ → Prop} (h : ReachableBy allow w) :
    w.WellFormed := by
  induction h with
  | start hs => exact wellFormed_of_ofSettings? hs
  | step _ _ ih => exact ih.apply _

/-! ### New entities -/

/-- Nothing in a world tells of an entity. -/
structure Blank (w : World κ) (e : Handle) : Prop where
  typesOf_eq : w.typesOf e = []
  get?_eq : ∀ k, w.get? k e = none
  labelOf?_eq : w.labels.labelOf? e = none
  updatedAt?_eq : ∀ t, w.journal.updatedAt? e t = none
  removedAt?_eq : ∀ t, w.journal.removedAt? e t = none

/-- An entity that comes finds nothing in its slot and nothing under its name. -/
theorem WellFormed.blank_enter (hw : w.WellFormed) {e : Handle} {pool : SlotPool}
    (he : w.pool.Enters e pool) : (w.enter e pool).Blank e := by
  have hvacant := hw.housed.holds_eq_false he.vacant
  have hdead : ¬ w.isAlive e := he.not_isAlive rfl
  have hcolumn : ∀ r ∈ w.registrations, r.column.contains e.slot = false := fun r hr =>
    (holds_of_mem hw.tagsDistinct hr).symm.trans (hvacant r.tag)
  refine ⟨?_, fun k => ?_, ?_, fun t => ?_, fun t => ?_⟩
  · have hf : w.registrations.filter (·.column.contains e.slot) = [] :=
      List.filter_eq_nil_iff.mpr fun r hr => by rw [hcolumn r hr]; exact Bool.false_ne_true
    have ht : (w.enter e pool).typesOf e =
        if (w.enter e pool).isAlive e then
          (w.registrations.filter (·.column.contains e.slot)).map (·.tag) else [] := rfl
    rw [ht, hf]
    exact ite_self []
  · exact (hw.housed.get?_enter he k e).trans (if_neg hdead)
  · exact Labels.labelOf?_eq_none_iff.mpr fun hb => hdead (hw.isAlive_of_binds e hb)
  · exact Option.not_isSome_iff_eq_none.mp fun h => hdead (hw.isAlive_of_updated e t h)
  · exact Option.not_isSome_iff_eq_none.mp fun h => hdead (hw.of_removed e t h).1

omit [DecidableEq κ] in
theorem eq_enter_of_spawn {e : Handle} {w' : World κ} (h : spawn w = .ok e w') :
    ∃ pool, SlotPool.spawn w.pool = .ok e pool ∧ w' = w.enter e pool := by
  simp only [spawn] at h
  cases hs : SlotPool.spawn w.pool with
  | error cause pool =>
    rw [hs] at h
    cases h
  | ok e' pool =>
    rw [hs] at h
    cases h
    exact ⟨pool, rfl, rfl⟩

omit [DecidableEq κ] in
theorem eq_enter_of_claim {i : UInt32} {e : Handle} {w' : World κ} (h : claim i w = .ok e w') :
    ∃ pool, SlotPool.claim i w.pool = .ok e pool ∧ w' = w.enter e pool := by
  unfold claim at h
  split at h
  · simp only [EStateM.adaptExcept, occupy] at h
    cases hs : SlotPool.claim i w.pool with
    | error cause pool =>
      rw [hs] at h
      cases h
    | ok e' pool =>
      rw [hs] at h
      cases h
      exact ⟨pool, rfl, rfl⟩
  · cases h

/-- **Components are only where somebody lives.** In a reachable world the slot
of every component is live and no column is longer than the pool, so that a new
entity, whether its slot was chosen for it or asked for, has no component, no
label, and no stamp of a component. -/
theorem Reachable.components_live (h : w.Reachable) :
    (∀ r ∈ w.registrations, r.column.size ≤ w.pool.next.toNat ∧
      ∀ i, r.column.contains i → (w.pool.slotAt i).live = true) ∧
    ∀ e w', spawn w = .ok e w' ∨ (∃ i, claim i w = .ok e w') → w'.Blank e := by
  have hw := h.wellFormed
  constructor
  · intro r hr
    refine ⟨?_, fun i hi => ?_⟩
    · rw [hw.pool.toNat_next]
      exact hw.size_le r hr
    · exact hw.live_of_holds i r.tag ((holds_of_mem hw.tagsDistinct hr).trans hi)
  · rintro e w' (hs | ⟨i, hc⟩)
    · obtain ⟨pool, hp, rfl⟩ := eq_enter_of_spawn hs
      exact hw.blank_enter (SlotPool.enters_of_spawn hw.pool hp)
    · obtain ⟨pool, hp, rfl⟩ := eq_enter_of_claim hc
      exact hw.blank_enter (SlotPool.enters_of_claim hw.pool hp).1

/-- A world whose only entity, a particle, is gone. -/
def emptied : World (Stocked Empty) :=
  run {} [.registerSynced .particle Particle.codec, .spawn, .add .particle ⟨0, 0⟩ {}, .kill ⟨0, 0⟩]

theorem reachable_emptied : emptied.Reachable :=
  ReachableBy.run (.start (s := {}) rfl) ⟨trivial, trivial, trivial, trivial, trivial⟩

/-- The slot is taken again, and the particle is not there. -/
theorem components_live_emptied : ∃ w', spawn emptied = .ok ⟨0, 1⟩ w' ∧ w'.Blank ⟨0, 1⟩ := by
  have hs : spawn emptied = .ok ⟨0, 1⟩ (after spawn emptied) := rfl
  exact ⟨_, hs, reachable_emptied.components_live.2 _ _ (Or.inl hs)⟩

end World
end EntityWorld
