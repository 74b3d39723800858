/-
# What a tick does to a population

A tick ends the entities whose particles are at their end once they are older, and
nobody else (`Simulation.Renewal.mem_gone_iff`). It then brings new particles, as many
as are missing: those that there are after it are the survivors, or the number to keep
up if that is more. Who stays has the components that they had. Their particles are
older, those of them who are stars have moved, and nothing else has changed.

All this is read off the course of a tick (`Simulation.Course`). The one thing to see
is that nobody who comes is one of those who went, as the slot that they take has gone
on to its next generation.

So over any number of ticks the count of the expired grows by the number of those who
were there before a tick and not after it (`Simulation.casualties`), and entities
without particles stay.

Key definitions: `World.survivors`, `Simulation.Renewal`, `Simulation.casualties`.
Key theorems: `World.Housed.survivors_add_length`, `Simulation.Course.renewal`,
`Simulation.Ready.renews`.
-/
import EntityWorld.Proofs.Endurance
import Mathlib.Tactic

namespace EntityWorld

theorem SlotPool.WellFormed.alive_nodup {p : SlotPool} (hp : p.WellFormed) : p.alive.Nodup := by
  refine hp.alive_ascending.imp ?_
  rintro e _ hlt rfl
  exact UInt32.lt_irrefl _ hlt

variable {κ : Type} [Family κ] [DecidableEq κ]

namespace World

/-! ### Counting entities -/

omit [DecidableEq κ] in
/-- Some entities are as many as those who they are. -/
theorem countP_entities {w : World κ} (hw : w.pool.WellFormed) {p : Handle → Bool}
    {es : List Handle} (hnodup : es.Nodup) (h : ∀ e, e ∈ es ↔ w.isAlive e ∧ p e) :
    w.entities.countP p = es.length := by
  rw [List.countP_eq_length_filter]
  refine List.Perm.length_eq ((List.perm_ext_iff_of_nodup (hw.alive_nodup.filter _) hnodup).mpr ?_)
  intro e
  rw [List.mem_filter, h]
  exact and_congr_left' (SlotPool.mem_alive_iff hw)

/-- There are as many components of a kind as there are entities that have one. -/
theorem Housed.census_eq_countP {w : World κ} (hw : w.Housed) (k : κ) :
    w.census k = w.entities.countP fun e => (w.get? k e).isSome := by
  cases hc : w.column? k with
  | none =>
    have hnone : ∀ e, w.get? k e = none := fun e => get?_eq_none_of_not_isRegistered fun hk => by
      rw [isRegistered_iff_column?, hc] at hk
      cases hk
    rw [census, hc, eq_comm, Option.map_none, Option.getD_none, List.countP_eq_zero]
    intro e _
    rw [hnone e]
    exact Bool.false_ne_true
  | some c =>
    have hmem : ∀ e, (e ∈ c.present.map fun x => w.pool.current (.ofNat x.1)) ↔
        w.isAlive e ∧ (w.get? k e).isSome := fun e =>
      (mem_map_current_iff hw hc).trans ⟨fun hg => ⟨isAlive_of_get? hg, hg⟩, And.right⟩
    rw [countP_entities hw.pool (nodup_map_current hw hc) hmem, census_of_column? hc,
      List.length_map, Column.length_present]

variable {w : World (Stocked κ)} {dt : Single}

/-- The number of entities whose particles are not at their end when they are older by
some time. -/
def survivors (w : World (Stocked κ)) (dt : Single) : Nat :=
  w.entities.countP fun e =>
    (w.get? (.particle : Stocked κ) e).any fun p => !Particle.isExpired (Particle.age dt p)

/-- Who has a particle survives or expires. -/
theorem Housed.survivors_add_length (hw : w.Housed) {es : List Handle} (hnodup : es.Nodup)
    (h : ∀ e, e ∈ es ↔ w.expires dt e) :
    w.survivors dt + es.length = w.census (.particle : Stocked κ) := by
  have hexpired : w.entities.countP (w.expires dt) = es.length :=
    countP_entities hw.pool hnodup fun e =>
      (h e).trans ⟨fun he => ⟨isAlive_of_expires he, he⟩, And.right⟩
  rw [hw.census_eq_countP, List.countP_eq_countP_filter_add _ _ (w.expires dt), List.countP_filter,
    List.countP_filter, Nat.add_comm, ← hexpired]
  congr 1
  · refine List.countP_congr fun e _ => ?_
    unfold expires
    cases w.get? (.particle : Stocked κ) e <;> simp
  · refine List.countP_congr fun e _ => ?_
    unfold expires
    cases w.get? (.particle : Stocked κ) e <;> simp

end World

namespace Simulation

open World

variable {s t : Simulation κ} {dt : Double} {ks es : List Handle} {w₁ w₂ : World (Stocked κ)}
  {e : Handle}

/-! ### One tick -/

/-- Some entities went as their particles came to an end, others came, each with a particle
and a place, and those who stayed have what they had, their particles being older. Of
their places nothing is said. -/
structure Renewal (s : Simulation κ) (dt : Single) (gone come : List Handle)
    (t : Simulation κ) : Prop where
  nodup_gone : gone.Nodup
  mem_gone_iff : ∀ e, e ∈ gone ↔ s.world.expires dt e
  nodup_come : come.Nodup
  fresh : ∀ e ∈ come, ¬ s.world.isAlive e
  isAlive_iff : ∀ e, t.world.isAlive e ↔ s.world.isAlive e ∧ e ∉ gone ∨ e ∈ come
  isSome_get?_iff : ∀ k, ∀ e ∈ come, (t.world.get? k e).isSome ↔ k = .particle ∨ k = .transform
  liveCount : t.world.pool.liveCount + gone.length = s.world.pool.liveCount + come.length
  census : t.world.census (.particle : Stocked κ) + gone.length =
    s.world.census (.particle : Stocked κ) + come.length
  expired : t.expired = s.expired + gone.length
  typesOf_eq : ∀ e, s.world.isAlive e → e ∉ gone → t.world.typesOf e = s.world.typesOf e
  particle_eq : ∀ e, s.world.isAlive e → e ∉ gone →
    t.world.get? (.particle : Stocked κ) e = (s.world.get? .particle e).map (Particle.age dt)
  get?_eq : ∀ k e, s.world.isAlive e → e ∉ gone → k ≠ .particle → k ≠ .transform →
    t.world.get? k e = s.world.get? k e

namespace Course

/-- The slot of one who went is of another generation since. -/
theorem fresh (h : Course s dt ks es w₁ w₂ t) (hs : s.Ready) (he : e ∈ es) :
    ¬ s.world.isAlive e := by
  intro ha
  by_cases hgone : e ∈ ks
  · exact h.thinned.generation_ne e hgone (h.joined.generation_eq e he)
  · exact h.joined.fresh e he ((h.thinned.isAlive_iff hs.staged.housed.pool).mpr ⟨hgone, ha⟩)

/-- Before the stars move, those who stay have what they had, their particles being older. -/
theorem get?_eq (h : Course s dt ks es w₁ w₂ t) (hs : s.Ready) (ha : s.world.isAlive e)
    (hgone : e ∉ ks) (k : Stocked κ) :
    w₂.get? k e = (s.world.rework (.particle : Stocked κ)
      (·.map (Particle.age dt.toSingle))).get? k e :=
  (h.joined.get?_of_not_mem k e fun he => h.fresh hs he ha).trans (h.thinned.get?_eq k e hgone)

theorem isSome_get?_eq (h : Course s dt ks es w₁ w₂ t) (hs : s.Ready) (ha : s.world.isAlive e)
    (hgone : e ∉ ks) (k : Stocked κ) : (t.world.get? k e).isSome = (s.world.get? k e).isSome := by
  rw [h.moved.isSome_get?_eq, h.get?_eq hs ha hgone]
  by_cases hk : k = .particle
  · subst hk
    rw [get?_rework_map, Option.isSome_map]
  · rw [get?_rework_of_ne _ hk]

theorem renewal (h : Course s dt ks es w₁ w₂ t) (hs : s.Ready) :
    Renewal s dt.toSingle ks es t where
  nodup_gone := h.thinned.nodup
  mem_gone_iff := h.mem_iff
  nodup_come := h.joined.nodup
  fresh _ he := h.fresh hs he
  isAlive_iff e := by
    have hmoved : t.world.isAlive e ↔ w₂.isAlive e := by
      unfold World.isAlive
      rw [h.moved.pool_eq]
    rw [hmoved, h.joined.isAlive_iff, h.thinned.isAlive_iff hs.staged.housed.pool, or_comm, and_comm]
    rfl
  isSome_get?_iff k e he := by
    rw [h.moved.isSome_get?_eq]
    exact h.joined.isSome_get?_iff k e he
  liveCount := h.liveCount hs
  census := h.census
  expired := h.expired
  typesOf_eq e ha hgone := by
    have hforms : t.world.forms = s.world.forms := by
      rw [h.moved.forms_eq, h.joined.forms_eq, h.thinned.forms_eq, forms_rework]
      rfl
    rw [typesOf_eq_map h.moved.staged.housed.tagsDistinct, typesOf_eq_map hs.staged.housed.tagsDistinct,
      hforms]
    exact congrArg _ (List.filter_congr fun x _ => h.isSome_get?_eq hs ha hgone x.1)
  particle_eq e ha hgone := by
    have hne : (.particle : Stocked κ) ≠ .transform := fun heq => by cases heq
    rw [h.moved.get?_of_ne _ e hne, h.get?_eq hs ha hgone, get?_rework_map]
  get?_eq k e ha hgone hp ht := by
    rw [h.moved.get?_of_ne k e ht, h.get?_eq hs ha hgone, get?_rework_of_ne _ hp]

/-- Those who stay were where they are when the stars began to move. -/
theorem scrolled_eq (h : Course s dt ks es w₁ w₂ t) (hs : s.Ready) (ha : s.world.isAlive e)
    (hgone : e ∉ ks) (rules : Rules) (d : Single) :
    w₂.scrolled rules d e = s.world.scrolled rules d e := by
  have hstar : w₂.get? (.star : Stocked κ) e = s.world.get? .star e :=
    (h.get?_eq hs ha hgone _).trans (get?_rework_of_ne _ fun heq => by cases heq)
  have hplace : w₂.get? (.transform : Stocked κ) e = s.world.get? .transform e :=
    (h.get?_eq hs ha hgone _).trans (get?_rework_of_ne _ fun heq => by cases heq)
  unfold scrolled
  rw [hstar, hplace]

/-- The particles that are left when those at their end have gone. -/
theorem survivors_eq (h : Course s dt ks es w₁ w₂ t) (hs : s.Ready) :
    w₁.census (.particle : Stocked κ) = s.world.survivors dt.toSingle := by
  have hsplit := hs.staged.housed.survivors_add_length h.thinned.nodup h.mem_iff
  exact Nat.add_right_cancel (h.census_thinned.trans hsplit.symm)

end Course

/-! ### Any number of ticks -/

/-- The number of entities that were there before a tick and not after it, over some ticks. -/
def casualties (s : Simulation κ) : List Double → Nat
  | [] => 0
  | dt :: dts =>
    let t := after (advance dt) s
    (s.world.entities.countP fun e => !t.world.isAlive e) + casualties t dts

namespace Renewal

variable {d : Single} {gone come : List Handle}

/-- Those who went are those who are not there any more. -/
theorem countP_gone (h : Renewal s d gone come t) (hs : s.Ready) :
    (s.world.entities.countP fun e => !t.world.isAlive e) = gone.length := by
  refine countP_entities hs.staged.housed.pool h.nodup_gone fun e => ?_
  have hfresh : s.world.isAlive e → e ∉ come := fun ha he => h.fresh e he ha
  have hexpires : e ∈ gone → s.world.isAlive e := fun he =>
    isAlive_of_expires ((h.mem_gone_iff e).mp he)
  rw [Bool.not_eq_true', ← Bool.not_eq_true, h.isAlive_iff]
  tauto

/-- Who has no particle stays, without one. -/
theorem stays (h : Renewal s d gone come t) (ha : s.world.isAlive e)
    (hnone : s.world.get? (.particle : Stocked κ) e = none) :
    t.world.isAlive e ∧ t.world.get? (.particle : Stocked κ) e = none := by
  have hgone : e ∉ gone := fun he => by
    have hexpires := (h.mem_gone_iff e).mp he
    rw [expires, hnone] at hexpires
    cases hexpires
  refine ⟨(h.isAlive_iff e).mpr (Or.inl ⟨ha, hgone⟩), ?_⟩
  rw [h.particle_eq e ha hgone, hnone]
  rfl

end Renewal

/-- Over any number of ticks those are counted who went, and only particles go. -/
theorem Ready.afterTicks_casualties (h : s.Ready) (dts : List Double) :
    (s.afterTicks dts).expired = s.expired + s.casualties dts ∧
      ∀ e, s.world.isAlive e → s.world.get? (.particle : Stocked κ) e = none →
        (s.afterTicks dts).world.isAlive e := by
  induction dts generalizing s with
  | nil => exact ⟨rfl, fun e ha _ => ha⟩
  | cons dt dts ih =>
    obtain ⟨gone, come, w₁, w₂, hcourse⟩ := h.exists_course dt
    have hrenewal := hcourse.renewal h
    obtain ⟨hexpired, hstays⟩ := ih (h.after_advance dt)
    refine ⟨?_, fun e ha hnone => ?_⟩
    · have hcasualties : s.casualties (dt :: dts) =
          gone.length + (after (Simulation.advance dt) s).casualties dts := by
        rw [← hrenewal.countP_gone h]
        rfl
      rw [hcasualties, ← Nat.add_assoc, ← hrenewal.expired]
      exact hexpired
    · obtain ⟨ha', hnone'⟩ := hrenewal.stays ha hnone
      exact hstays e ha' hnone'

/-- **The law of the population.** In a scene that is ready a tick of any length ends the
entities whose particles are at their end by then, and nobody else, and they are added to
the count of the expired. New ones come, each with a particle and a place, as many as the
survivors fall short of the number to keep up, so that there are as many particles then,
or as many as survived. Who stays keeps the kinds of components that they had; their
particles are older, stars have moved, and nothing else has changed. Where the slots do
not suffice the tick fails, for nothing else, and before a star has moved.

So over any number of ticks as many are counted as there were who went, and nobody goes
who has no particle. -/
theorem Ready.renews (h : s.Ready) :
    (∀ dt : Double,
      let t := after (Simulation.advance dt) s
      ∃ gone come, Renewal s dt.toSingle gone come t ∧
        if s.HasRoom then
          Simulation.advance dt s = .ok () t ∧
            come.length = s.rules.particles - s.world.survivors dt.toSingle ∧
            t.world.census (.particle : Stocked κ) =
              max s.rules.particles (s.world.survivors dt.toSingle) ∧
            ∀ e, s.world.isAlive e → e ∉ gone →
              t.world.get? (.transform : Stocked κ) e = s.world.scrolled s.rules dt.toSingle e
        else
          Simulation.advance dt s = .error (.handle .exhausted) t ∧
            ∀ e, s.world.isAlive e → e ∉ gone →
              t.world.get? (.transform : Stocked κ) e = s.world.get? .transform e) ∧
    ∀ dts : List Double,
      (s.afterTicks dts).expired = s.expired + s.casualties dts ∧
        ∀ e, s.world.isAlive e → s.world.get? (.particle : Stocked κ) e = none →
          (s.afterTicks dts).world.isAlive e := by
  refine ⟨fun dt => ?_, h.afterTicks_casualties⟩
  intro t
  obtain ⟨ks, es, w₁, w₂, hcourse⟩ := h.exists_course dt
  have hleft := hcourse.survivors_eq h
  have houtcome := hcourse.outcome
  refine ⟨ks, es, hcourse.renewal h, ?_⟩
  split at houtcome
  · next hroom =>
    obtain ⟨hok, hlength, hplaces⟩ := houtcome
    rw [hleft] at hlength
    rw [if_pos hroom]
    refine ⟨hok, hlength, ?_, fun e ha hgone => ?_⟩
    · have hcensus : t.world.census (.particle : Stocked κ) = w₁.census .particle + es.length :=
        hcourse.moved.census.trans hcourse.joined.census
      omega
    · rw [hplaces, hcourse.scrolled_eq h ha hgone]
  · next hroom =>
    obtain ⟨hfail, -, hworld, -⟩ := houtcome
    rw [if_neg hroom]
    refine ⟨hfail, fun e ha hgone => ?_⟩
    rw [hworld, hcourse.get?_eq h ha hgone]
    exact get?_rework_of_ne _ fun heq => by cases heq

/-- A star that is a particle as well and at its end, a star that is none, and a particle
without a place; one is missing. -/
def dyingStar : Simulation Empty where
  rules := { particles := 3 }
  world := run {}
    [.register .particle, .registerSynced .star Star.codec, .register .transform,
      .spawn, .spawn, .spawn, .add .particle ⟨0, 0⟩ {}, .add .star ⟨0, 0⟩ {},
      .add .transform ⟨0, 0⟩ {}, .add .star ⟨1, 0⟩ ⟨.half⟩, .add .transform ⟨1, 0⟩ {},
      .add .particle ⟨2, 0⟩ (Particle.ofLifetime .half)]

/-- A tick of a quarter of a second, and then some of other lengths. -/
theorem renews_dyingStar :
    let t := after (Simulation.advance ⟨0x3fd0000000000000⟩) dyingStar
    (∃ gone come, Renewal dyingStar (Double.toSingle ⟨0x3fd0000000000000⟩) gone come t ∧
      come.length = 3 - dyingStar.world.survivors (Double.toSingle ⟨0x3fd0000000000000⟩)) ∧
    (dyingStar.afterTicks [⟨0x3ff0000000000000⟩, ⟨0x7ff8000000000000⟩]).world.isAlive ⟨1, 0⟩ := by
  have hreach : dyingStar.world.Reachable := ReachableBy.run (.start (s := {}) rfl)
    ⟨trivial, trivial, trivial, trivial, trivial, trivial, trivial, trivial, trivial, trivial,
      trivial, trivial, trivial⟩
  have hready : dyingStar.Ready := .of_staged ⟨hreach.wellFormed.housed, by decide +kernel,
    by decide +kernel, by decide +kernel⟩ hreach.exposed
  have hroom : dyingStar.HasRoom := by decide +kernel
  obtain ⟨hone, hmany⟩ := hready.renews
  obtain ⟨gone, come, hrenewal, houtcome⟩ := hone ⟨0x3fd0000000000000⟩
  rw [if_pos hroom] at houtcome
  exact ⟨⟨gone, come, hrenewal, houtcome.2.1⟩, (hmany _).2 _ (by decide +kernel) (by decide +kernel)⟩

end Simulation
end EntityWorld
