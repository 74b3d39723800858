/-
# New stars

Stars are made one after the other. Each takes a slot, a free one if there is one, and
whoever lived there before has left nothing behind: those who go leave their slot empty
in every column, and an empty slot is all that a newcomer is given (`World.Housed`).
So a new star has its star and its place and nothing else (`World.Equipped`), and all
of them together leave everybody else alone (`World.Strewn`).

One thing can be wanting: a slot. So all of them are made exactly if the slots that are
left are enough, and otherwise as many as there are slots (`Simulation.exists_spawnStars`).
Nothing is asked of the labels and the journal, which may have been changed from outside.

Key definitions: `World.Equipped`, `World.Strewn`.
Key theorems: `World.equipped_alight`, `World.Strewn.cons`, `Simulation.exists_spawnStars`.
-/
import EntityWorld.Proofs.Interruptions
import EntityWorld.Proofs.HighWater
import EntityWorld.Proofs.Isolation
import EntityWorld.Proofs.Records
import Mathlib.Tactic

namespace EntityWorld

variable {κ : Type} [Family κ] [DecidableEq κ]

namespace World

/-! ### Newcomers -/

section Enter

variable {w u v : World κ} {e e' : Handle} {pool : SlotPool} {t : TypeTag}

theorem Spares.trans (h : w.Spares u e) (h' : u.Spares v e) : w.Spares v e where
  isAlive_eq := h'.isAlive_eq.trans h.isAlive_eq
  createdAt?_eq := h'.createdAt?_eq.trans h.createdAt?_eq
  destroyedAt?_eq := h'.destroyedAt?_eq.trans h.destroyedAt?_eq
  target?_iff id := (h'.target?_iff id).trans (h.target?_iff id)
  labelOf?_eq := h'.labelOf?_eq.trans h.labelOf?_eq
  get?_eq k := (h'.get?_eq k).trans (h.get?_eq k)
  typesOf_eq := h'.typesOf_eq.trans h.typesOf_eq
  updatedAt?_eq t := (h'.updatedAt?_eq t).trans (h.updatedAt?_eq t)
  removedAt?_eq t := (h'.removedAt?_eq t).trans (h.removedAt?_eq t)

theorem Spares.sparesTag (h : w.Spares u e) (t : TypeTag) : w.SparesTag u e t where
  mem_typesOf_iff := by rw [h.typesOf_eq]
  updatedAt?_eq := h.updatedAt?_eq t
  removedAt?_eq := h.removedAt?_eq t

omit [DecidableEq κ] in
theorem SparesTag.trans (h : w.SparesTag u e t) (h' : u.SparesTag v e t) : w.SparesTag v e t where
  mem_typesOf_iff := h'.mem_typesOf_iff.trans h.mem_typesOf_iff
  updatedAt?_eq := h'.updatedAt?_eq.trans h.updatedAt?_eq
  removedAt?_eq := h'.removedAt?_eq.trans h.removedAt?_eq

/-- A newcomer has no component and no record of one, as before. -/
theorem Housed.sparesTag_enter (hw : w.Housed) (he : w.pool.Enters e pool) (e' : Handle)
    (t : TypeTag) : w.SparesTag (w.enter e pool) e' t where
  mem_typesOf_iff := mem_typesOf_congr hw.tagsDistinct rfl fun k _ => hw.get?_enter he k e'
  updatedAt?_eq := rfl
  removedAt?_eq := rfl

/-- Everybody else is as before. -/
theorem Housed.spares_enter (hw : w.Housed) (he : w.pool.Enters e pool) (hne : e' ≠ e) :
    w.Spares (w.enter e pool) e' where
  isAlive_eq := Bool.eq_iff_iff.mpr (he.isAlive_iff.trans (or_iff_right hne))
  createdAt?_eq := by
    change (w.journal.recordCreation e).createdAt? e' = _
    rw [Journal.createdAt?_recordCreation, if_neg hne]
  destroyedAt?_eq := rfl
  target?_iff _ := Iff.rfl
  labelOf?_eq := rfl
  get?_eq k := hw.get?_enter he k e'
  typesOf_eq := typesOf_congr hw.tagsDistinct rfl fun k => hw.get?_enter he k e'
  updatedAt?_eq _ := rfl
  removedAt?_eq _ := rfl

/-- What is written now is recorded as of now. -/
theorem stamped_write {k : κ} (w : World κ) (e : Handle) (o : Option (Value k)) :
    (w.write k e o).journal.updatedAt? e (tagOf k) = some w.journal.now ∧
      (w.write k e o).journal.removedAt? e (tagOf k) = none := by
  change (w.journal.recordUpdate e (tagOf k)).updatedAt? e (tagOf k) = _ ∧
    (w.journal.recordUpdate e (tagOf k)).removedAt? e (tagOf k) = _
  rw [Journal.updatedAt?_recordUpdate, Journal.removedAt?_recordUpdate, if_pos ⟨rfl, rfl⟩,
    if_pos ⟨rfl, rfl⟩]
  exact ⟨rfl, rfl⟩

end Enter

/-! ### One star -/

variable {w u v : World (Stocked κ)} {e : Handle} {es : List Handle} {pool : SlotPool}
  {x : Star × Transform} {xs : List (Star × Transform)}

/-- The tags of what a star is made of. -/
def starTags (κ : Type) [Family κ] : List TypeTag :=
  [tagOf (.star : Stocked κ), tagOf (.transform : Stocked κ)]

/-- From the world `w` to the world `u` an entity came, and has a star and a place and
nothing else. -/
structure Equipped (w u : World (Stocked κ)) (e : Handle) (x : Star × Transform) : Prop where
  isAlive : u.isAlive e
  createdAt?_eq : u.journal.createdAt? e = some w.journal.now
  star_eq : u.get? .star e = some x.1
  place_eq : u.get? .transform e = some x.2
  get?_eq_none : ∀ k : Stocked κ, k ≠ .star → k ≠ .transform → u.get? k e = none
  typesOf_perm : (u.typesOf e).Perm (starTags κ)
  stamped : ∀ t ∈ starTags κ, u.journal.updatedAt? e t = some w.journal.now ∧
    u.journal.removedAt? e t = none
  /-- Of other components there is no new record either. -/
  sparesTag : ∀ t ∉ starTags κ, w.SparesTag u e t

namespace Equipped

/-- It stays so when others come. -/
theorem of_spares (h : w.Equipped u e x) (hu : u.Spares v e) : w.Equipped v e x where
  isAlive := hu.isAlive_eq.trans h.isAlive
  createdAt?_eq := hu.createdAt?_eq.trans h.createdAt?_eq
  star_eq := (hu.get?_eq _).trans h.star_eq
  place_eq := (hu.get?_eq _).trans h.place_eq
  get?_eq_none k hstar hplace := (hu.get?_eq k).trans (h.get?_eq_none k hstar hplace)
  typesOf_perm := hu.typesOf_eq ▸ h.typesOf_perm
  stamped t ht := by
    rw [hu.updatedAt?_eq, hu.removedAt?_eq]
    exact h.stamped t ht
  sparesTag t ht := (h.sparesTag t ht).trans (hu.sparesTag t)

/-- And it is so of all who come later. -/
theorem of_spares_before (h : u.Equipped v e x) (hw : w.Spares u e)
    (hnow : u.journal.now = w.journal.now) : w.Equipped v e x :=
  { h with
    createdAt?_eq := hnow ▸ h.createdAt?_eq
    stamped := hnow ▸ h.stamped
    sparesTag := fun t ht => (hw.sparesTag t).trans (h.sparesTag t ht) }

end Equipped

theorem forms_alight : (w.alight e pool x.1 x.2).forms = w.forms :=
  (forms_write e _).trans (forms_write e _)

theorem Starry.tagOf_ne (hk : w.Starry) (hw : w.TagsDistinct) :
    tagOf (.star : Stocked κ) ≠ tagOf (.transform : Stocked κ) := fun ht =>
  nomatch eq_of_tagOf_eq hw hk.1 hk.2 ht

/-- The newcomer is given a star, and then a place. -/
theorem confined_alight (he : w.pool.Enters e pool) :
    (w.enter e pool).Confined ((w.enter e pool).write (.star : Stocked κ) e (some x.1)) .star e ∧
      ((w.enter e pool).write (.star : Stocked κ) e (some x.1)).Confined
        (w.alight e pool x.1 x.2) .transform e := by
  have halive : (w.enter e pool).isAlive e := he.isAlive_iff.mpr (Or.inl rfl)
  have halive' : ((w.enter e pool).write (.star : Stocked κ) e (some x.1)).isAlive e := halive
  exact ⟨confined_write halive _, confined_write halive' _⟩

section Alight

variable (hw : w.Housed) (he : w.pool.Enters e pool)
include hw

theorem tagsDistinct_alight : (w.alight e pool x.1 x.2).TagsDistinct :=
  tagsDistinct_of_forms hw.tagsDistinct forms_alight

include he

theorem spares_alight {e' : Handle} (hne : e' ≠ e) : w.Spares (w.alight e pool x.1 x.2) e' := by
  obtain ⟨hlit, hplaced⟩ := confined_alight (x := x) he
  have hentered : (w.enter e pool).TagsDistinct := hw.tagsDistinct
  exact (hw.spares_enter he hne).trans ((hlit.spares hentered hne).trans
    (hplaced.spares (tagsDistinct_rework hentered _) hne))

/-- There was nothing in the slot but what is put there now. -/
theorem get?_alight_eq_none {k : Stocked κ} (hstar : k ≠ .star) (hplace : k ≠ .transform) :
    (w.alight e pool x.1 x.2).get? k e = none := by
  obtain ⟨hlit, hplaced⟩ := confined_alight (x := x) he
  calc (w.alight e pool x.1 x.2).get? k e
      = ((w.enter e pool).write (.star : Stocked κ) e (some x.1)).get? k e :=
        hplaced.get?_eq k e fun h => hplace h.1
    _ = (w.enter e pool).get? k e := hlit.get?_eq k e fun h => hstar h.1
    _ = w.get? k e := hw.get?_enter he k e
    _ = none := get?_of_not_isAlive (he.not_isAlive rfl)

theorem sparesTag_alight {t : TypeTag} (ht : t ∉ starTags κ) :
    w.SparesTag (w.alight e pool x.1 x.2) e t := by
  obtain ⟨hlit, hplaced⟩ := confined_alight (x := x) he
  have hentered : (w.enter e pool).TagsDistinct := hw.tagsDistinct
  obtain ⟨hstar, hplace⟩ := not_or.mp (List.mem_pair.not.mp ht)
  exact (hw.sparesTag_enter he e t).trans ((hlit.sparesTag hentered hstar).trans
    (hplaced.sparesTag (tagsDistinct_rework hentered _) hplace))

variable (hk : w.Starry)
include hk

theorem housed_alight (hp : pool.WellFormed) : (w.alight e pool x.1 x.2).Housed := by
  have halive : (w.enter e pool).isAlive e := he.isAlive_iff.mpr (Or.inl rfl)
  have hentered : (w.enter e pool).isRegistered .star := hk.1
  have hkinds := (isRegistered_lit w e pool x.1 .transform).trans hk.2
  exact ((hw.enter he hp).write hentered halive _).write hkinds halive _

omit hw in
theorem get?_alight : (w.alight e pool x.1 x.2).get? .star e = some x.1 ∧
    (w.alight e pool x.1 x.2).get? .transform e = some x.2 := by
  have halive : (w.enter e pool).isAlive e := he.isAlive_iff.mpr (Or.inl rfl)
  have hentered : (w.enter e pool).isRegistered .star := hk.1
  have hkinds := (isRegistered_lit w e pool x.1 .transform).trans hk.2
  have hlater := (confined_alight (x := x) he).2.get?_eq .star e fun h => nomatch h.1
  exact ⟨hlater.trans (get?_write_self hentered halive _), get?_write_self hkinds halive _⟩

theorem typesOf_alight_perm :
    ((w.alight e pool x.1 x.2).typesOf e).Perm (starTags κ) := by
  have hdistinct : (w.alight e pool x.1 x.2).TagsDistinct := tagsDistinct_alight hw
  have halive : (w.alight e pool x.1 x.2).isAlive e := (isAlive_alight_iff he).mpr (Or.inl rfl)
  have hmem : ∀ {k : Stocked κ}, ((w.alight e pool x.1 x.2).get? k e).isSome →
      tagOf k ∈ (w.alight e pool x.1 x.2).typesOf e := fun hg =>
    (mem_typesOf_iff hdistinct).mpr
      ⟨halive, (holds_iff_get? hdistinct (isRegistered_of_get? hg) halive).trans hg⟩
  have hnodup : (starTags κ).Nodup := List.nodup_cons.mpr
    ⟨List.mem_singleton.not.mpr (hk.tagOf_ne hw.tagsDistinct), List.nodup_singleton _⟩
  obtain ⟨hstar, hplace⟩ := get?_alight (x := x) he hk
  refine (List.perm_ext_iff_of_nodup (typesOf_nodup hdistinct e) hnodup).mpr fun t => ?_
  by_cases ht : t ∈ starTags κ
  · refine iff_of_true ?_ ht
    rcases List.mem_pair.mp ht with rfl | rfl
    · exact hmem (hstar ▸ rfl)
    · exact hmem (hplace ▸ rfl)
  · -- a tag that is not given now would have been there before, of somebody who was not
    refine iff_of_false (fun hm => ?_) ht
    have hdead : ¬ w.isAlive e := he.not_isAlive rfl
    have hold := (sparesTag_alight hw he ht).mem_typesOf_iff.mp hm
    rw [typesOf, if_neg hdead] at hold
    exact List.not_mem_nil hold

theorem stamped_alight : ∀ t ∈ starTags κ,
    (w.alight e pool x.1 x.2).journal.updatedAt? e t = some w.journal.now ∧
      (w.alight e pool x.1 x.2).journal.removedAt? e t = none := by
  intro t ht
  rcases List.mem_pair.mp ht with rfl | rfl
  · have htags := hk.tagOf_ne hw.tagsDistinct
    have hplaced := (confined_alight (x := x) he).2.journal
    rw [hplaced.updatedAt?_eq _ _ fun h => htags h.2, hplaced.removedAt?_eq _ _ fun h => htags h.2]
    exact stamped_write _ e _
  · exact stamped_write _ e _

/-- Who came has a star and a place, and nothing of those who lived there before. -/
theorem equipped_alight : w.Equipped (w.alight e pool x.1 x.2) e x := by
  obtain ⟨hlit, hplaced⟩ := confined_alight (x := x) he
  obtain ⟨hstar, hplace⟩ := get?_alight (x := x) he hk
  refine ⟨(isAlive_alight_iff he).mpr (Or.inl rfl), ?_, hstar, hplace,
    fun _ => get?_alight_eq_none hw he, typesOf_alight_perm hw he hk, stamped_alight hw he hk,
    fun _ => sparesTag_alight hw he⟩
  calc (w.alight e pool x.1 x.2).journal.createdAt? e
      = ((w.enter e pool).write (.star : Stocked κ) e (some x.1)).journal.createdAt? e :=
        (hplaced.sparesLife e).createdAt?_eq
    _ = (w.journal.recordCreation e).createdAt? e := (hlit.sparesLife e).createdAt?_eq
    _ = some w.journal.now := by rw [Journal.createdAt?_recordCreation, if_pos rfl]

end Alight

/-! ### Some stars -/

/-- Some entities came, one with each of some stars and places, and nothing else has
changed. -/
structure Strewn (w : World (Stocked κ)) (xs : List (Star × Transform)) (es : List Handle)
    (u : World (Stocked κ)) : Prop where
  housed : u.Housed
  length_eq : es.length = xs.length
  nodup : es.Nodup
  fresh : ∀ e ∈ es, ¬ w.isAlive e
  equipped : ∀ y ∈ xs.zip es, w.Equipped u y.2 y.1
  spares : ∀ e ∉ es, w.Spares u e
  liveCount : u.pool.liveCount = w.pool.liveCount + es.length
  settings_eq : u.settings = w.settings
  forms_eq : u.forms = w.forms
  labels_eq : u.labels = w.labels
  destroyed_eq : u.journal.destroyed = w.journal.destroyed

namespace Strewn

theorem refl (hw : w.Housed) : w.Strewn [] [] w where
  housed := hw
  length_eq := rfl
  nodup := List.nodup_nil
  fresh _ := nofun
  equipped _ := nofun
  spares e _ := spares_refl w e
  liveCount := rfl
  settings_eq := rfl
  forms_eq := rfl
  labels_eq := rfl
  destroyed_eq := rfl

/-- One is made, and then the others. -/
theorem cons (hw : w.Housed) (hk : w.Starry) (hs : SlotPool.spawn w.pool = .ok e pool)
    (h : (w.alight e pool x.1 x.2).Strewn xs es u) : w.Strewn (x :: xs) (e :: es) u := by
  have henters := SlotPool.enters_of_spawn hw.pool hs
  have halive : ∀ e', (w.alight e pool x.1 x.2).isAlive e' ↔ e' = e ∨ w.isAlive e' := fun e' =>
    isAlive_alight_iff henters
  have hnew : e ∉ es := fun hm => h.fresh e hm ((halive e).mpr (Or.inl rfl))
  refine ⟨h.housed, congrArg (· + 1) h.length_eq, List.nodup_cons.mpr ⟨hnew, h.nodup⟩,
    fun e' he' => ?_, fun y hy => ?_, fun e' he' => ?_, ?_, h.settings_eq,
    h.forms_eq.trans forms_alight, h.labels_eq, h.destroyed_eq⟩
  · rcases List.mem_cons.mp he' with rfl | hm
    · exact henters.not_isAlive rfl
    · exact fun ha => h.fresh e' hm ((halive e').mpr (Or.inr ha))
  · rw [List.zip_cons_cons] at hy
    rcases List.mem_cons.mp hy with rfl | hm
    · exact (equipped_alight hw henters hk).of_spares (h.spares e hnew)
    · have hne : y.2 ≠ e := fun heq => hnew (heq ▸ (List.of_mem_zip hm).2)
      exact (h.equipped y hm).of_spares_before (spares_alight hw henters hne) rfl
  · obtain ⟨hne, hm⟩ := not_or.mp (List.mem_cons.not.mp he')
    exact (spares_alight hw henters hne).trans (h.spares e' hm)
  · have hone : pool.liveCount = w.pool.liveCount + 1 := (SlotPool.spawn_cases hw.pool hs).2.1
    have hall : u.pool.liveCount = pool.liveCount + es.length := h.liveCount
    rw [hall, hone, List.length_cons]
    omega

end Strewn
end World

namespace Simulation

open World

variable {s : Simulation κ} {w : World (Stocked κ)}

/-- What the `i`th of `n` new entities is given. -/
def giftOf (rules : Rules) (n i : Nat) : Star × Transform := (starOf i, placeOf rules n i)

/-- No star is made where no slot is left, and nothing has changed then. -/
theorem spawnStar_of_full (hw : w.Housed) (hall : w.pool.liveCount = SlotPool.limit.toNat)
    (rules : Rules) (n i : Nat) : spawnStar rules n i w = .error (.handle .exhausted) w :=
  bind_of_error (spawn_of_error (SlotPool.spawn_of_full hw.pool hall))

/-- Stars are made as long as slots are left. -/
theorem exists_mapM_spawnStar (hw : s.world.Housed) (hk : s.world.Starry) (rules : Rules) (n : Nat)
    (is : List Nat) : ∃ es u, s.world.Strewn ((is.take es.length).map (giftOf rules n)) es u ∧
      ((is.mapM fun i => inWorld (spawnStar rules n i)) s = .ok es { s with world := u } ∧
          es.length = is.length ∨
        (is.mapM fun i => inWorld (spawnStar rules n i)) s =
            .error (.handle .exhausted) { s with world := u } ∧
          es.length < is.length ∧ u.pool.liveCount = SlotPool.limit.toNat) := by
  induction is generalizing s with
  | nil => exact ⟨[], s.world, .refl hw, Or.inl ⟨rfl, rfl⟩⟩
  | cons i is ih =>
    rw [List.mapM_cons]
    have hlimit : s.world.pool.liveCount ≤ SlotPool.limit.toNat :=
      hw.pool.liveCount_le.trans hw.pool.size_le
    by_cases hroom : s.world.pool.liveCount < SlotPool.limit.toNat
    · obtain ⟨e, pool, hs⟩ := SlotPool.exists_spawn hw.pool hroom
      have hfirst := inWorld_of_ok (spawnStar_of_ok hw.pool hk hs rules n i)
      have hhoused := housed_alight (x := giftOf rules n i) hw (SlotPool.enters_of_spawn hw.pool hs) hk
        (SlotPool.wellFormed_of_spawn hw.pool hs)
      obtain ⟨es, u, hstrewn, hend⟩ := ih (s := { s with world := _ }) hhoused
        (starry_alight_iff.mpr hk)
      refine ⟨e :: es, u, .cons hw hk hs hstrewn, ?_⟩
      rcases hend with ⟨hall, hlength⟩ | ⟨hfail, hlength, hfull⟩
      · exact Or.inl ⟨(bind_of_ok hfirst).trans (bind_of_ok hall), congrArg (· + 1) hlength⟩
      · exact Or.inr ⟨(bind_of_ok hfirst).trans (bind_of_error hfail), Nat.succ_lt_succ hlength, hfull⟩
    · have hall := le_antisymm hlimit (Nat.le_of_not_lt hroom)
      have hfirst := inWorld_of_error (spawnStar_of_full hw hall rules n i)
      exact ⟨[], s.world, .refl hw, Or.inr ⟨bind_of_error hfirst, Nat.succ_pos _, hall⟩⟩

/-- **New stars are new and have what they need.** Whatever slots are free and in whatever
order they are taken, as many stars are made as were asked for, if there are slots for
them, and as many as there are slots for if not. -/
theorem exists_spawnStars (hw : s.world.Exposed) (hk : s.world.Starry)
    (hlive : ∀ i t, s.world.holds i t → (s.world.pool.slotAt i).live = true) (n : Nat) :
    ∃ es u, s.world.Strewn ((List.range es.length).map (giftOf s.rules n)) es u ∧
      if s.world.pool.liveCount + n ≤ SlotPool.limit.toNat then
        spawnStars n s = .ok es { s with world := u } ∧ es.length = n
      else
        spawnStars n s = .error (.handle .exhausted) { s with world := u } ∧ es.length < n ∧
          u.pool.liveCount = SlotPool.limit.toNat := by
  obtain ⟨es, u, hstrewn, hend⟩ := exists_mapM_spawnStar (s := s)
    ⟨hw.pool_wellFormed, hw.tagsDistinct, hlive⟩ hk s.rules n (List.range n)
  have hcount := hstrewn.liveCount
  have hlimit := hstrewn.housed.pool.liveCount_le.trans hstrewn.housed.pool.size_le
  rw [List.length_range] at hend
  have hle : es.length ≤ n := by
    rcases hend with ⟨-, h⟩ | ⟨-, h, -⟩
    · exact h.le
    · exact h.le
  rw [List.take_range, Nat.min_eq_left hle] at hstrewn
  refine ⟨es, u, hstrewn, ?_⟩
  rcases hend with ⟨hall, hlength⟩ | ⟨hfail, hlength, hfull⟩
  · rw [if_pos (by omega)]
    exact ⟨hall, hlength⟩
  · rw [if_neg (by omega)]
    exact ⟨hfail, hlength, hfull⟩

/-- What went on in a scene until the one who came first, with a star and a particle, went
again. The other one has a star and a label. -/
def starEnds : List (Operation (Stocked Empty)) :=
  [.registerSynced .star Star.codec, .register .particle, .register .transform, .spawn, .spawn,
    .add .star ⟨0, 0⟩ {}, .add .particle ⟨0, 0⟩ {}, .add .star ⟨1, 0⟩ {},
    .createLabel "lamp" ⟨1, 0⟩, .setVersion 3, .kill ⟨0, 0⟩]

def starGone : Simulation Empty where
  rules := {}
  world := World.run {} starEnds

/-- Two stars are made there, of which one takes the slot that is free. -/
theorem exists_spawnStars_starGone :
    starGone.world.Exposed ∧ starGone.world.Starry ∧ starGone.world.Housed ∧
      starGone.world.pool.free = #[0] ∧ starGone.world.entities = [⟨1, 0⟩] ∧
      ∃ es u, spawnStars 2 starGone = .ok es { starGone with world := u } ∧
        starGone.world.Strewn [giftOf {} 2 0, giftOf {} 2 1] es u := by
  have hstart : ofSettings? {} = some ({} : World (Stocked Empty)) := rfl
  have hrun : World.undergo {} (starEnds.map .operate) = starGone.world := undergo_operate starEnds
  have hw : starGone.world.Exposed := hrun ▸ exposed_undergo hstart (starEnds.map .operate)
  have hk : starGone.world.Starry := ⟨by decide +kernel, by decide +kernel⟩
  have hhoused : starGone.world.Housed := ((wellFormed_of_ofSettings? hstart).run starEnds).housed
  obtain ⟨es, u, hstrewn, hend⟩ := exists_spawnStars hw hk hhoused.live_of_holds 2
  rw [if_pos (by decide +kernel)] at hend
  rw [hend.2] at hstrewn
  exact ⟨hw, hk, hhoused, by decide +kernel, by decide +kernel, es, u, hend.1, hstrewn⟩

end Simulation
end EntityWorld
