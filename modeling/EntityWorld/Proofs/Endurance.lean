/-
# Ticks do not fail

In a scene where the stock kinds are registered and every component is in a slot
where somebody lives, a tick finds all that it goes for. Some particles come to their
end (`Simulation.exists_ageParticles_thinned`), others come in their place
(`Simulation.exists_refillParticles`), and where there are transforms a star that has
none is passed over. One thing can be wanting: a slot for a new particle. So a tick
succeeds exactly if the slots that are left are enough to make up for the particles
that are missing (`Simulation.Ready.endures`).

Ageing does not change whether they are, as an entity that ends leaves its slot to
the particle that takes its place, and after a tick no particle is missing. So one
tick that succeeds is followed by any number of them.

Key definitions: `World.Moved`, `World.scrolled`, `Simulation.Ready`,
`Simulation.HasRoom`, `Simulation.Course`.
Key theorems: `Simulation.exists_scrollStars`, `Simulation.Ready.exists_course`,
`Simulation.Ready.endures`.
-/
import EntityWorld.Proofs.Arrivals
import EntityWorld.Proofs.Window
import Mathlib.Tactic

namespace EntityWorld

variable {κ : Type} [Family κ] [DecidableEq κ]

namespace World

variable {P w : World (Stocked κ)} {e : Handle} {rules : Simulation.Rules} {dt : Single}

/-! ### Stars that move -/

/-- Nobody came or went since `P`, and no component but transforms is another. -/
structure Moved (P w : World (Stocked κ)) : Prop where
  staged : w.Staged
  pool_eq : w.pool = P.pool
  forms_eq : w.forms = P.forms
  census : w.census (.particle : Stocked κ) = P.census (.particle : Stocked κ)
  get?_of_ne : ∀ k e, k ≠ .transform → w.get? k e = P.get? k e
  isSome_transform : ∀ e, (w.get? (.transform : Stocked κ) e).isSome = (P.get? .transform e).isSome

namespace Moved

theorem refl (hP : P.Staged) : Moved P P where
  staged := hP
  pool_eq := rfl
  forms_eq := rfl
  census := rfl
  get?_of_ne _ _ _ := rfl
  isSome_transform _ := rfl

theorem isSome_get?_eq (h : Moved P w) (k : Stocked κ) (e : Handle) :
    (w.get? k e).isSome = (P.get? k e).isSome := by
  by_cases hk : k = .transform
  · subst hk
    exact h.isSome_transform e
  · rw [h.get?_of_ne k e hk]

theorem prune (h : Moved P w) (v : Nat) : Moved P (w.prune v) :=
  { h with
    staged := h.staged.change (.prune v) (.prune v)
    pool_eq := h.pool_eq
    forms_eq := h.forms_eq
    census := h.census
    get?_of_ne := h.get?_of_ne
    isSome_transform := h.isSome_transform }

theorem edit (h : Moved P w) (hg : (w.get? (.transform : Stocked κ) e).isSome)
    (f : Transform → Transform) :
    Moved P ((w.rework (.transform : Stocked κ) (·.modify e.slot f)).stamp .transform e) := by
  have hself : ((w.rework (.transform : Stocked κ) (·.modify e.slot f)).get? .transform e).isSome =
      (w.get? .transform e).isSome := by
    rw [get?_rework_modify_self, Option.isSome_map]
  have hmoved := h.staged.change (.edit (.transform : Stocked κ) e f) (.edit f h.staged.transform hg)
  have hne : (.particle : Stocked κ) ≠ .transform := fun heq => by cases heq
  refine ⟨hmoved.change (.markDirty (.transform : Stocked κ) e) (.stamp hmoved.transform (hself ▸ hg)),
    h.pool_eq, (forms_rework _).trans h.forms_eq, (census_rework_of_ne _ hne).trans h.census,
    fun k e' hk => ?_, fun e' => ?_⟩
  · exact (get?_rework_of_ne _ hk).trans (h.get?_of_ne k e' hk)
  · rw [← h.isSome_transform]
    by_cases he : e' = e
    · subst he
      exact hself
    · exact congrArg Option.isSome
        (get?_rework_modify_of_ne (k := (.transform : Stocked κ)) (isAlive_of_get? hg) f
          fun heq => he heq.2)

end Moved

/-- The place of an entity after some time: a star moves at its own speed, and all else
stays. -/
def scrolled (w : World (Stocked κ)) (rules : Simulation.Rules) (dt : Single) (e : Handle) :
    Option Transform :=
  match w.get? (.star : Stocked κ) e with
  | some star => (w.get? (.transform : Stocked κ) e).map
      (Simulation.drift rules.width dt (Star.scrollSpeed star rules.scrollSpeed))
  | none => w.get? (.transform : Stocked κ) e

/-- Some stars are still to move, each at its own speed, and the others have. -/
structure Scrolling (P : World (Stocked κ)) (rules : Simulation.Rules) (dt : Single)
    (xs : List (Nat × Single)) (w : World (Stocked κ)) : Prop where
  moved : Moved P w
  nodup : (xs.map fun x => P.pool.current (.ofNat x.1)).Nodup
  star : ∀ x ∈ xs, ∃ star, P.get? (.star : Stocked κ) (P.pool.current (.ofNat x.1)) = some star ∧
    x.2 = Star.scrollSpeed star rules.scrollSpeed
  transform : ∀ e, w.get? (.transform : Stocked κ) e =
    if e ∈ xs.map fun x => P.pool.current (.ofNat x.1) then P.get? .transform e
    else P.scrolled rules dt e

theorem Scrolling.start (hP : P.Staged) {c : Column Star}
    (hc : P.column? (.star : Stocked κ) = some c) :
    Scrolling P rules dt
      (c.present.map fun x => (x.1, Star.scrollSpeed x.2 rules.scrollSpeed)) P := by
  have hmap : ((c.present.map fun x => (x.1, Star.scrollSpeed x.2 rules.scrollSpeed)).map
      fun x => P.pool.current (.ofNat x.1)) = c.present.map fun x => P.pool.current (.ofNat x.1) :=
    List.map_map
  refine ⟨.refl hP, ?_, fun x hx => ?_, fun e => ?_⟩
  · rw [hmap]
    exact nodup_map_current hP.housed hc
  · obtain ⟨y, hy, rfl⟩ := List.mem_map.mp hx
    refine ⟨y.2, ?_, rfl⟩
    obtain ⟨he, hslot⟩ := isAlive_of_mem_present hP.housed hc hy
    rw [get?_of_isAlive he, value?, hc, Option.bind_some, hslot]
    exact Column.mem_present.mp hy
  · rw [hmap]
    split
    · rfl
    · next hnot =>
      have hnone : P.get? (.star : Stocked κ) e = none :=
        Option.not_isSome_iff_eq_none.mp ((mem_map_current_iff hP.housed hc).not.mp hnot)
      rw [scrolled, hnone]

/-- A star moves, and one fewer is to. -/
theorem Scrolling.step {x : Nat × Single} {xs : List (Nat × Single)}
    (h : Scrolling P rules dt (x :: xs) w) :
    ∃ w', Simulation.scroll rules.width dt x.1 x.2 w = .ok () w' ∧
      Scrolling P rules dt xs w' := by
  obtain ⟨star, hstar, hspeed⟩ := h.star x List.mem_cons_self
  obtain ⟨hnew, hnodup⟩ := List.nodup_cons.mp h.nodup
  have hscroll := Simulation.scroll_of_isRegistered h.moved.staged.transform rules.width dt x.1 x.2
  rw [h.moved.pool_eq] at hscroll
  let e := P.pool.current (.ofNat x.1)
  have hbefore : w.get? (.transform : Stocked κ) e = P.get? .transform e :=
    (h.transform e).trans (if_pos List.mem_cons_self)
  have hscrolled : P.scrolled rules dt e =
      (w.get? (.transform : Stocked κ) e).map (Simulation.drift rules.width dt x.2) := by
    rw [scrolled, hstar, hbefore, hspeed]
  -- whoever else is still to move is so before and after
  have hothers : ∀ e', e' ≠ e → w.get? (.transform : Stocked κ) e' =
      if e' ∈ xs.map fun x => P.pool.current (.ofNat x.1) then P.get? .transform e'
      else P.scrolled rules dt e' := fun e' he' => by
    rw [h.transform e']
    exact if_congr (List.mem_cons.trans (or_iff_right he')) rfl rfl
  have hstars := fun x' hx' => h.star x' (List.mem_cons_of_mem x hx')
  refine ⟨_, hscroll, ?_⟩
  split
  · next hg =>
    refine ⟨h.moved.edit hg _, hnodup, hstars, fun e' => ?_⟩
    by_cases he : e' = e
    · subst he
      rw [if_neg hnew, hscrolled]
      exact get?_rework_modify_self (w := w) (k := (.transform : Stocked κ)) (e := e) _
    · rw [← hothers e' he]
      exact get?_rework_modify_of_ne (isAlive_of_get? hg) _ fun heq => he heq.2
  · next hg =>
    refine ⟨h.moved, hnodup, hstars, fun e' => ?_⟩
    by_cases he : e' = e
    · subst he
      rw [if_neg hnew, hscrolled, Option.not_isSome_iff_eq_none.mp hg]
      rfl
    · exact hothers e' he

end World

namespace Simulation

open World

variable {s : Simulation κ} {ks es : List Handle} {w₁ w₂ : World (Stocked κ)}

/-- **Stars are scrolled without fail**, each that has a place by its own speed. -/
theorem exists_scrollStars (h : s.world.Staged) (dt : Single) :
    ∃ u, scrollStars dt s = .ok () { s with world := u } ∧ Moved s.world u ∧
      ∀ e, u.get? (.transform : Stocked κ) e = s.world.scrolled s.rules dt e := by
  obtain ⟨c, hc⟩ := Option.isSome_iff_exists.mp (isRegistered_iff_column?.mp h.star)
  obtain ⟨u, hok, hdone⟩ := exists_forM (Q := Scrolling s.world s.rules dt)
    (fun _ _ _ hq => hq.step) _ (Scrolling.start h hc)
  refine ⟨u, (bind_of_ok (inWorld_column hc)).trans hok, hdone.moved, fun e => ?_⟩
  rw [hdone.transform e, List.map_nil, if_neg List.not_mem_nil]

theorem exists_pruneHistory {P : World (Stocked κ)} (h : Moved P s.world) :
    ∃ u, pruneHistory s = .ok () { s with world := u } ∧ Moved P u ∧
      ∀ e, u.get? (.transform : Stocked κ) e = s.world.get? .transform e := by
  by_cases hlong : s.rules.historyTicks ≤ s.tick
  · refine ⟨_, ?_, h.prune (s.tick - s.rules.historyTicks), fun _ => rfl⟩
    rw [pruneHistory_eq, if_pos hlong]
  · refine ⟨s.world, ?_, h, fun _ => rfl⟩
    rw [pruneHistory_eq, if_neg hlong]

/-! ### Ticks -/

/-- A scene in which nothing is wanting for a tick but slots: the stock kinds are
registered, and components are only where somebody lives. What else was done to the
world before does not matter. -/
structure Ready (s : Simulation κ) : Prop where
  exposed : s.world.Exposed
  particle : s.world.isRegistered (.particle : Stocked κ)
  star : s.world.isRegistered (.star : Stocked κ)
  transform : s.world.isRegistered (.transform : Stocked κ)
  live_of_contains : ∀ k c i, s.world.column? k = some c → c.contains i →
    (s.world.pool.slotAt i).live = true

/-- The slots that are left are enough to make up for the particles that are missing. -/
def HasRoom (s : Simulation κ) : Prop :=
  s.world.pool.liveCount + (s.rules.particles - s.world.census (.particle : Stocked κ)) ≤
    SlotPool.limit.toNat

instance : Decidable s.HasRoom := inferInstanceAs (Decidable (_ ≤ _))

theorem Ready.staged (h : s.Ready) : s.world.Staged where
  housed :=
    { pool := h.exposed.pool_wellFormed
      tagsDistinct := h.exposed.tagsDistinct
      live_of_holds := fun i t ht => by
        unfold holds at ht
        cases hr : s.world.ofTag? t with
        | none =>
          rw [hr] at ht
          cases ht
        | some r =>
          rw [hr] at ht
          have hc := column?_of_mem h.exposed.tagsDistinct (mem_of_ofTag? hr)
          exact h.live_of_contains r.kind r.column i hc ht }
  particle := h.particle
  star := h.star
  transform := h.transform

theorem Ready.of_staged (h : s.world.Staged) (hexposed : s.world.Exposed) : s.Ready where
  exposed := hexposed
  particle := h.particle
  star := h.star
  transform := h.transform
  live_of_contains k c i hc hi := by
    have hk := isRegistered_iff_column?.mpr (Option.isSome_of_eq_some hc)
    refine h.housed.live_of_holds i (tagOf k) ?_
    rw [holds_tagOf h.housed.tagsDistinct hk, hc]
    exact hi

/-- A tick is made of operations, at its version. -/
theorem exposed_advance (h : s.world.Exposed) (dt : Double) :
    (after (advance dt) s).world.Exposed ∧
      (after (advance dt) s).world.journal.now = s.tick + 1 := by
  let J (w : World (Stocked κ)) : Prop := w.Exposed ∧ w.journal.now = s.tick + 1
  have hJ : ∀ op : Operation (Stocked κ), op.Stirs → ∀ w, J w → J (op.apply w) := by
    rintro op hop w ⟨hw, hnow⟩
    refine ⟨hw.apply op, ?_⟩
    exact Change.keeps_row (I := fun u => u.journal.now = s.tick + 1)
      (fun hc hu => (hc.destroyedAt?_eq_or hop).1.trans hu) (Change.row_apply op hw.pool_wellFormed)
      hnow
  have hbegun : J (s.world.setVersion (s.tick + 1)) := ⟨h.apply (.setVersion _), rfl⟩
  exact (within_advance (within_stir_of_closed hJ hbegun dt) fun _ w hw =>
    ⟨hw.1.apply (.prune _), hw.2⟩).2.2

/-- What becomes of a scene in a tick. Those whose particles come to their end go, others
come, and if there is room for all that are missing then the stars move. -/
structure Course (s : Simulation κ) (dt : Double) (ks es : List Handle)
    (w₁ w₂ : World (Stocked κ)) (t : Simulation κ) : Prop where
  mem_iff : ∀ e, e ∈ ks ↔ s.world.expires dt.toSingle e
  thinned : Thinned (s.begun.world.rework (.particle : Stocked κ)
    (·.map (Particle.age dt.toSingle))) ks w₁
  joined : w₁.Joined es w₂
  moved : Moved w₂ t.world
  rules : t.rules = s.rules
  expired : t.expired = s.expired + ks.length
  outcome : if s.HasRoom then
      advance dt s = .ok () t ∧
        es.length = s.rules.particles - w₁.census (.particle : Stocked κ) ∧
        ∀ e, t.world.get? (.transform : Stocked κ) e = w₂.scrolled s.rules dt.toSingle e
    else
      advance dt s = .error (.handle .exhausted) t ∧
        es.length < s.rules.particles - w₁.census (.particle : Stocked κ) ∧
        t.world = w₂ ∧ w₂.pool.liveCount = SlotPool.limit.toNat

namespace Course

variable {dt : Double} {t : Simulation κ}

theorem census_thinned (h : Course s dt ks es w₁ w₂ t) :
    w₁.census (.particle : Stocked κ) + ks.length = s.world.census (.particle : Stocked κ) := by
  rw [h.thinned.census, census_rework_map]
  rfl

theorem census (h : Course s dt ks es w₁ w₂ t) :
    t.world.census (.particle : Stocked κ) + ks.length =
      s.world.census (.particle : Stocked κ) + es.length := by
  rw [h.moved.census, h.joined.census, Nat.add_right_comm, h.census_thinned]

theorem liveCount (h : Course s dt ks es w₁ w₂ t) (hs : s.Ready) :
    t.world.pool.liveCount + ks.length = s.world.pool.liveCount + es.length := by
  have hgone : w₁.pool.liveCount + ks.length = s.world.pool.liveCount :=
    h.thinned.liveCount hs.staged.housed.pool
  rw [h.moved.pool_eq, h.joined.liveCount, Nat.add_right_comm, hgone]

end Course

/-- Every tick takes its course. -/
theorem Ready.exists_course (h : s.Ready) (dt : Double) :
    ∃ ks es w₁ w₂, Course s dt ks es w₁ w₂ (after (advance dt) s) := by
  have hbegun : s.begun.world.Staged := h.staged.change (.setVersion _) (.setVersion _)
  have haged := hbegun.change (.editAll (.particle : Stocked κ) (Particle.age dt.toSingle)) (.editAll _)
  obtain ⟨ks, w₁, hage, hthin, hmem⟩ := exists_ageParticles_thinned hbegun dt.toSingle
  let later (w : World (Stocked κ)) : Simulation κ :=
    { s.begun with world := w, expired := s.expired + ks.length }
  obtain ⟨es, w₂, hjoined, hrefill⟩ := exists_refillParticles (s := later w₁) hthin.staged
  have hroom : w₁.Room s.rules.particles ↔ s.HasRoom := by
    rw [hthin.room_iff haged.housed, Room, census_rework_map]
    rfl
  split at hrefill
  · next hr =>
    obtain ⟨hrefill, hlength⟩ := hrefill
    obtain ⟨u, hscroll, hmoved, hplaces⟩ :=
      exists_scrollStars (s := later w₂) hjoined.staged dt.toSingle
    obtain ⟨w₃, hprune, hmoved', hplaces'⟩ := exists_pruneHistory (s := later u) hmoved
    have hok : advance dt s = .ok () (later w₃) :=
      (bind_of_ok hage).trans ((bind_of_ok hrefill).trans ((bind_of_ok hscroll).trans hprune))
    rw [after_of_ok hok]
    refine ⟨ks, es, w₁, w₂, hmem, hthin, hjoined, hmoved', rfl, rfl, ?_⟩
    rw [if_pos (hroom.mp hr)]
    exact ⟨hok, hlength, fun e => (hplaces' e).trans (hplaces e)⟩
  · next hr =>
    obtain ⟨hrefill, hlength, hfull⟩ := hrefill
    have hfail : advance dt s = .error (.handle .exhausted) (later w₂) :=
      (bind_of_ok hage).trans (bind_of_error hrefill)
    rw [after_of_error hfail]
    refine ⟨ks, es, w₁, w₂, hmem, hthin, hjoined, .refl hjoined.staged, rfl, rfl, ?_⟩
    rw [if_neg (hroom.not.mp hr)]
    exact ⟨hfail, hlength, rfl, hfull⟩

/-- Where there is no room for the particles a tick fails for want of a slot, and for
nothing else. -/
theorem Ready.advance_of_not_hasRoom (h : s.Ready) (hroom : ¬ s.HasRoom) (dt : Double) :
    ∃ t, advance dt s = .error (.handle .exhausted) t := by
  obtain ⟨ks, es, w₁, w₂, hcourse⟩ := h.exists_course dt
  have houtcome := hcourse.outcome
  rw [if_neg hroom] at houtcome
  exact ⟨_, houtcome.1⟩

/-- After a tick that failed, too, a scene is ready for the next one. -/
theorem Ready.after_advance (h : s.Ready) (dt : Double) : (after (Simulation.advance dt) s).Ready := by
  obtain ⟨ks, es, w₁, w₂, hcourse⟩ := h.exists_course dt
  exact .of_staged hcourse.moved.staged (exposed_advance h.exposed dt).1

theorem Ready.advance (h : s.Ready) (hroom : s.HasRoom) (dt : Double) :
    ∃ s', Simulation.advance dt s = .ok () s' ∧ s'.tick = s.tick + 1 ∧ s'.rules = s.rules ∧
      s'.world.journal.now = s'.tick ∧ s'.Ready ∧ s'.HasRoom := by
  obtain ⟨ks, es, w₁, w₂, hcourse⟩ := h.exists_course dt
  have htick := (tick_after_advance dt s).1
  have hnow := (exposed_advance h.exposed dt).2
  have houtcome := hcourse.outcome
  rw [if_pos hroom] at houtcome
  obtain ⟨hok, hlength, -⟩ := houtcome
  refine ⟨_, hok, htick, hcourse.rules, hnow.trans htick.symm, h.after_advance dt, ?_⟩
  -- no particle is missing after a tick
  refine room_of_le_census hcourse.moved.staged.housed ?_
  rw [hcourse.rules, hcourse.moved.census, hcourse.joined.census]
  omega

/-- **A tick never fails, but for want of slots.** In a scene that is ready a tick of any
length succeeds, if the slots that are left make up for the particles that are
missing; it then counts one, the world has its number for a version, and the scene is
ready for the next tick. It fails otherwise, and then because the slots are used up.
So once there is room, any number of ticks of any lengths succeed. -/
theorem Ready.endures (h : s.Ready) :
    (∀ dt : Double,
      if s.HasRoom then
        ∃ s', Simulation.advance dt s = .ok () s' ∧ s'.tick = s.tick + 1 ∧ s'.rules = s.rules ∧
          s'.world.journal.now = s'.tick ∧ s'.Ready ∧ s'.HasRoom
      else ∃ s', Simulation.advance dt s = .error (.handle .exhausted) s') ∧
    (s.HasRoom → ∀ dts : List Double, ∃ s', dts.forM Simulation.advance s = .ok () s' ∧
      s'.tick = s.tick + dts.length ∧ s'.Ready ∧ s'.HasRoom) := by
  constructor
  · intro dt
    split
    · next hroom => exact h.advance hroom dt
    · next hroom => exact h.advance_of_not_hasRoom hroom dt
  · intro hroom dts
    induction dts generalizing s with
    | nil => exact ⟨s, rfl, rfl, h, hroom⟩
    | cons dt dts ih =>
      obtain ⟨t, hfirst, htick, -, -, hready, hroom'⟩ := h.advance hroom dt
      obtain ⟨u, hrest, htick', hdone⟩ := ih hready hroom'
      refine ⟨u, (bind_of_ok hfirst).trans hrest, ?_, hdone⟩
      rw [htick', htick, List.length_cons]
      omega

/-- A particle at its end, a star with a place and an entity with neither; the slot of
another is free. -/
def dyingParticle : World (Stocked Empty) :=
  run {} [.register .particle, .registerSynced .star Star.codec,
    .registerSynced .transform Transform.codec, .spawn, .spawn, .spawn, .spawn,
    .add .particle ⟨0, 0⟩ {}, .add .star ⟨1, 0⟩ {}, .add .transform ⟨1, 0⟩ {}, .kill ⟨3, 0⟩]

/-- Ticks of a length that is not a number, of none and of one that goes back. -/
theorem endures_dyingParticle :
    ∃ s', [⟨0x7ff8000000000000⟩, ⟨0⟩, ⟨0xbff0000000000000⟩].forM Simulation.advance
        { rules := {}, world := dyingParticle } = .ok () s' ∧ s'.tick = 3 ∧ s'.Ready ∧ s'.HasRoom := by
  have hreach : dyingParticle.Reachable := ReachableBy.run (.start (s := {}) rfl)
    ⟨trivial, trivial, trivial, trivial, trivial, trivial, trivial, trivial, trivial, trivial,
      trivial, trivial⟩
  have hhoused := hreach.wellFormed.housed
  have hready : Ready (κ := Empty) { rules := {}, world := dyingParticle } :=
    .of_staged ⟨hhoused, by decide +kernel, by decide +kernel, by decide +kernel⟩ hreach.exposed
  have hroom : HasRoom (κ := Empty) { rules := {}, world := dyingParticle } := by decide +kernel
  exact hready.endures.2 hroom _

end Simulation
end EntityWorld
