/-
# Particles that age

A tick ages all particles in place and goes through them once more: those left
alive are recorded as written, the entities of the others end. In between there
are particles whose record is still to come, and these grow fewer by one with
every record (`World.Ageing`). None of the records fails: each slot is gone to
once, and an entity that ends is none of those that are still waiting.

The other parts of a tick record what they write at once. So after a tick
everything that it has changed has the stamp of the tick
(`Simulation.settled_stir`).

Key definitions: `World.Ageing`, `Simulation.Settled`.
Key theorems: `World.Ageing.touch`, `World.Ageing.kill`,
`Simulation.preserves_ageParticles_settled`, `Simulation.settled_stir`.
-/
import EntityWorld.Proofs.Columns
import EntityWorld.Proofs.Ticking
import Mathlib.Tactic

namespace EntityWorld

variable {κ : Type} [Family κ] [DecidableEq κ]

/-! ### Who has a value -/

namespace World

section Holders

variable {w : World κ} {k : κ} {c : Column (Value k)} {e : Handle}

/-- The entity in a slot that has a value. -/
theorem isAlive_of_mem_present (hw : w.Housed) (hc : w.column? k = some c) {x : Nat × Value k}
    (hx : x ∈ c.present) : w.isAlive (w.pool.current (.ofNat x.1)) ∧
      (w.pool.current (.ofNat x.1)).slot = x.1 := by
  obtain ⟨i, v⟩ := x
  have hk : w.isRegistered k := isRegistered_iff_column?.mpr (Option.isSome_of_eq_some hc)
  have hholds : w.holds i (tagOf k) = true := by
    rw [holds_tagOf hw.tagsDistinct hk, hc, Option.bind_some, Column.mem_present.mp hx]
    rfl
  have hlive := hw.live_of_holds i _ hholds
  have hback := hw.pool.toNat_ofNat (SlotPool.lt_size_of_live hlive).le
  refine ⟨SlotPool.isAlive_current.mpr ?_, hback⟩
  rw [hback]
  exact hlive

/-- The values of a column for which a test holds are those of the entities in their slots. -/
theorem mem_map_current_filter_iff (hw : w.Housed) (hc : w.column? k = some c) (p : Value k → Bool) :
    e ∈ (c.present.filter fun x => p x.2).map (fun x => w.pool.current (.ofNat x.1)) ↔
      (w.get? k e).any p := by
  have hvalue : ∀ i, w.value? k i = c.get? i := fun i => by rw [value?, hc, Option.bind_some]
  rw [List.mem_map]
  constructor
  · rintro ⟨x, hx, rfl⟩
    obtain ⟨hx, hp⟩ := List.mem_filter.mp hx
    obtain ⟨he, hslot⟩ := isAlive_of_mem_present hw hc hx
    rw [get?_of_isAlive he, hvalue, hslot, Column.mem_present.mp hx]
    exact hp
  · intro hg
    have he := isAlive_of_get? (Option.isSome_of_any hg)
    obtain ⟨v, hv, hp⟩ := (Option.any_eq_true _ _).mp hg
    rw [get?_of_isAlive he, hvalue] at hv
    refine ⟨(e.slot, v), List.mem_filter.mpr ⟨Column.mem_present.mpr hv, hp⟩, ?_⟩
    have hindex : UInt32.ofNat e.slot = e.index := UInt32.ofNat_toNat
    rw [hindex]
    exact (SlotPool.eq_current_of_isAlive he).symm

theorem mem_map_current_iff (hw : w.Housed) (hc : w.column? k = some c) :
    e ∈ c.present.map (fun x => w.pool.current (.ofNat x.1)) ↔ (w.get? k e).isSome := by
  have hall := mem_map_current_filter_iff (e := e) hw hc fun _ => true
  rwa [List.filter_true, Option.any_true] at hall

theorem nodup_map_current (hw : w.Housed) (hc : w.column? k = some c) :
    (c.present.map fun x => w.pool.current (.ofNat x.1)).Nodup := by
  have hslots : (c.present.map fun x => w.pool.current (.ofNat x.1)).map (·.slot) =
      c.present.map (·.1) := by
    rw [List.map_map]
    exact List.map_congr_left fun x hx => (isAlive_of_mem_present hw hc hx).2
  exact List.Nodup.of_map _ (hslots ▸ Column.nodup_present c)

end Holders

end World

/-! ### The entity in a slot -/

namespace Simulation

variable {w : World (Stocked κ)} {e : Handle} {i : Nat}

omit [DecidableEq κ] in
theorem current_of_isAlive (he : w.isAlive e) (hi : e.index = .ofNat i) :
    w.pool.current (.ofNat i) = e := by
  rw [← hi]
  exact (SlotPool.eq_current_of_isAlive he).symm

theorem touchParticle_of_get? (hg : (w.get? (.particle : Stocked κ) e).isSome)
    (hi : e.index = .ofNat i) : touchParticle i w = .ok () (w.stamp (.particle : Stocked κ) e) := by
  simp only [touchParticle, current_of_isAlive (World.isAlive_of_get? hg) hi,
    World.markDirty_of_get? hg]

omit [DecidableEq κ] in
theorem killAt_of_isAlive (he : w.isAlive e) (hi : e.index = .ofNat i) :
    ∃ pool, SlotPool.kill e w.pool = .ok () pool ∧ killAt i w = .ok () (w.leave e pool) := by
  obtain ⟨pool, hpool⟩ : ∃ pool, SlotPool.kill e w.pool = .ok () pool := ⟨_, if_pos he⟩
  refine ⟨pool, hpool, ?_⟩
  simp only [killAt, current_of_isAlive he hi, World.kill_of_ok hpool]

end Simulation

/-! ### Particles whose record is to come -/

namespace World

variable {P w : World (Stocked κ)} {p : Nat → Bool} {e : Handle} {es : List Handle}

/-- The particles of some entities were edited and are still to be recorded. -/
structure Ageing (P : World (Stocked κ)) (p : Nat → Bool) (es : List Handle)
    (w : World (Stocked κ)) : Prop where
  follows : Follows P p (fun k e => k = .particle ∧ e ∈ es) w
  now : p w.journal.now
  nodup : es.Nodup
  present : ∀ e ∈ es, (w.get? .particle e).isSome

/-- A particle is recorded, and one fewer is to be. -/
theorem Ageing.touch (h : Ageing P p (e :: es) w) {i : Nat} (hi : e.index = .ofNat i) :
    ∃ w', Simulation.touchParticle i w = .ok () w' ∧ Ageing P p es w' := by
  have hg := h.present e List.mem_cons_self
  refine ⟨_, Simulation.touchParticle_of_get? hg hi, ?_, h.now, h.nodup.of_cons, fun e' he' => ?_⟩
  · refine h.follows.stamp (isRegistered_of_get? hg) hg h.now fun k' e' hne hpend => ⟨hpend.1, ?_⟩
    exact (List.mem_cons.mp hpend.2).resolve_left fun heq => hne ⟨hpend.1, heq⟩
  · exact h.present e' (List.mem_cons_of_mem e he')

/-- The entity of a particle ends, and one fewer is to be recorded. -/
theorem Ageing.kill (h : Ageing P p (e :: es) w) {i : Nat} (hi : e.index = .ofNat i) :
    ∃ w', Simulation.killAt i w = .ok () w' ∧ Ageing P p es w' := by
  obtain ⟨pool, hpool, hkill⟩ :=
    Simulation.killAt_of_isAlive (isAlive_of_get? (h.present e List.mem_cons_self)) hi
  have hleaves := SlotPool.leaves_of_kill hpool
  have hnew := (List.nodup_cons.mp h.nodup).1
  refine ⟨w.leave e pool, hkill, ?_, h.now, h.nodup.of_cons, fun e' he' => ?_⟩
  · refine h.follows.leave hleaves (SlotPool.wellFormed_of_kill h.follows.wellFormed.pool hpool)
      h.now fun k' e' hne hpend => ⟨hpend.1, ?_⟩
    exact (List.mem_cons.mp hpend.2).resolve_left hne
  · have hne : e' ≠ e := fun heq => hnew (heq ▸ he')
    rw [get?_leave hleaves, if_neg hne]
    exact h.present e' (List.mem_cons_of_mem e he')

end World

namespace Simulation

open World

variable {P : World (Stocked κ)} {p : Nat → Bool} {es : List Handle} {s : Simulation κ}

/-- All particles are edited at once, and the records of all are to come. -/
theorem ageing_rework {w : World (Stocked κ)} (h : Follows P p (fun _ _ => False) w)
    (hnow : p w.journal.now) (f : Particle → Particle) {w' : World (Stocked κ)}
    (hw' : w' = w.rework (.particle : Stocked κ) (·.map f)) {c : Column Particle}
    (hc : w'.column? (.particle : Stocked κ) = some c) {xs : List (Nat × Particle)}
    (hxs : xs.Perm c.present) :
    Ageing P p (xs.map fun x => w'.pool.current (.ofNat x.1)) w' := by
  subst hw'
  have hwf := Change.wellFormed (.editAll (k := (.particle : Stocked κ)) f) h.wellFormed
  have hmem : ∀ e, (e ∈ xs.map fun x => w.pool.current (.ofNat x.1)) ↔
      ((w.rework (.particle : Stocked κ) (·.map f)).get? .particle e).isSome := by
    intro e
    rw [(hxs.map _).mem_iff]
    exact mem_map_current_iff hwf.housed hc
  refine ⟨h.editAll (k := (.particle : Stocked κ)) f (fun e hg => ⟨rfl, ?_⟩)
    fun _ _ => False.elim, hnow, ?_, fun e he => (hmem e).mp he⟩
  · refine (hmem e).mpr ?_
    rw [get?_rework_map, Option.isSome_map]
    exact hg
  · exact (hxs.map _).nodup_iff.mpr (nodup_map_current hwf.housed hc)

/-- What has changed since `P` is recorded, and what comes next will be as well. -/
def Settled (P : World (Stocked κ)) (p : Nat → Bool) (w : World (Stocked κ)) : Prop :=
  Follows P p (fun _ _ => False) w ∧ p w.journal.now

/-- All particles age at once. Those left alive are recorded, then the others end. -/
theorem ageParticles_eq {dt : Single} {w : World (Stocked κ)}
    (hw : w = s.world.rework (.particle : Stocked κ) (·.map (Particle.age dt)))
    (hk : s.world.isRegistered (.particle : Stocked κ)) {c : Column (Value (.particle : Stocked κ))}
    (hc : w.column? (.particle : Stocked κ) = some c) :
    ageParticles dt s =
      (((c.present.filter fun x => !Particle.isExpired x.2).forM fun x =>
          inWorld (touchParticle x.1)) >>= fun _ =>
        ((c.present.filter fun x => Particle.isExpired x.2).forM fun x =>
          inWorld (killAt x.1)) >>= fun _ =>
        modify fun s => { s with
          expired := s.expired + (c.present.filter fun x => Particle.isExpired x.2).length })
        { s with world := w } := by
  have hedit : inWorld (World.modifyColumn (.particle : Stocked κ) (·.map (Particle.age dt))) s =
      .ok () { s with world := w } := by
    simp only [inWorld, modifyColumn_of_isRegistered hk, hw]
  have hread : inWorld (World.column (.particle : Stocked κ)) { s with world := w } =
      .ok c { s with world := w } := inWorld_column hc
  simp only [ageParticles, bind, EStateM.bind, hedit, hread, List.partition_eq_filter_filter]
  rfl

/-- The particles are gone through one by one and none fails, if it is so with any that are
left, first of those to be recorded and then of those to end. -/
theorem exists_ageParticles_each {Q : List (Nat × Particle) → List (Nat × Particle) →
      World (Stocked κ) → Prop} (dt : Single) {w : World (Stocked κ)}
    (hw : w = s.world.rework (.particle : Stocked κ) (·.map (Particle.age dt)))
    (hk : s.world.isRegistered (.particle : Stocked κ)) {c : Column Particle}
    (hc : w.column? (.particle : Stocked κ) = some c)
    (hstart : Q (c.present.filter fun x => !Particle.isExpired x.2)
      (c.present.filter fun x => Particle.isExpired x.2) w)
    (htouch : ∀ x xs ys u, Q (x :: xs) ys u → ∃ u', touchParticle x.1 u = .ok () u' ∧ Q xs ys u')
    (hkill : ∀ y ys u, Q [] (y :: ys) u → ∃ u', killAt y.1 u = .ok () u' ∧ Q [] ys u') :
    ∃ u, ageParticles dt s = .ok () { s with
        world := u
        expired := s.expired + (c.present.filter fun x => Particle.isExpired x.2).length } ∧
      Q [] [] u := by
  obtain ⟨w', htouched, hrest⟩ := exists_forM (s := { s with world := w })
    (Q := fun xs u => Q xs (c.present.filter fun x => Particle.isExpired x.2) u)
    (fun x xs u => htouch x xs _ u) _ hstart
  obtain ⟨w'', hkilled, hdone⟩ := exists_forM (s := { s with world := w' }) (Q := Q []) hkill _ hrest
  refine ⟨w'', ?_, hdone⟩
  rw [ageParticles_eq hw hk hc]
  exact (bind_of_ok htouched).trans (bind_of_ok hkilled)

/-- The same if it does not matter which are recorded and which end. -/
theorem exists_ageParticles {Q : List Handle → World (Stocked κ) → Prop} (dt : Single)
    {w : World (Stocked κ)}
    (hw : w = s.world.rework (.particle : Stocked κ) (·.map (Particle.age dt)))
    (hk : s.world.isRegistered (.particle : Stocked κ))
    (hstart : ∀ (c : Column Particle) (xs : List (Nat × Particle)),
      w.column? (.particle : Stocked κ) = some c →
      xs.Perm c.present → Q (xs.map fun x => w.pool.current (.ofNat x.1)) w)
    (htouch : ∀ i es u, Q (w.pool.current (.ofNat i) :: es) u →
      ∃ u', touchParticle i u = .ok () u' ∧ Q es u')
    (hkill : ∀ i es u, Q (w.pool.current (.ofNat i) :: es) u →
      ∃ u', killAt i u = .ok () u' ∧ Q es u') :
    ∃ u n, ageParticles dt s = .ok () { s with world := u, expired := n } ∧ Q [] u := by
  have hkw : w.isRegistered (.particle : Stocked κ) := by
    rw [hw, isRegistered_rework]
    exact hk
  obtain ⟨c, hc⟩ := Option.isSome_iff_exists.mp (isRegistered_iff_column?.mp hkw)
  have hperm : ((c.present.filter fun x => !Particle.isExpired x.2) ++
      c.present.filter fun x => Particle.isExpired x.2).Perm c.present :=
    List.perm_append_comm.trans (List.filter_append_perm _ _)
  -- those to be recorded come first among those that are left
  obtain ⟨u, hok, hdone⟩ := exists_ageParticles_each dt hw hk hc
    (Q := fun xs ys u => Q ((xs ++ ys).map fun x : Nat × Particle => w.pool.current (.ofNat x.1)) u)
    (hstart c _ hc hperm) (fun x xs ys u => htouch x.1 _ u) fun y ys u => hkill y.1 _ u
  exact ⟨u, _, hok, hdone⟩

/-- What aged is recorded or gone in the end. -/
theorem preserves_ageParticles_settled (u : Nat) (R : Rules) (dt : Single) :
    Preserves (Within u R (Settled P p)) (ageParticles dt : Action κ Unit) := by
  rintro s ⟨hu, hR, hfollows, hnow⟩
  by_cases hk : s.world.isRegistered .particle
  · obtain ⟨w, n, hok, hdone⟩ := exists_ageParticles (Q := Ageing P p) dt rfl hk
      (fun _ _ hc hxs => ageing_rework hfollows hnow _ rfl hc hxs) (fun _ _ _ h => h.touch rfl)
      fun _ _ _ h => h.kill rfl
    rw [after_of_ok hok]
    exact ⟨hu, hR, hdone.follows.weaken fun _ _ hp => List.not_mem_nil hp.2, hdone.now⟩
  · have hfail : ageParticles dt s =
        .error (.notRegistered (typeName (.particle : Stocked κ))) s := by
      have hedit : World.modifyColumn (.particle : Stocked κ) (·.map (Particle.age dt)) s.world =
          .error (.notRegistered (typeName (.particle : Stocked κ))) s.world := if_neg hk
      simp only [ageParticles, bind, EStateM.bind, inWorld, hedit]
    rw [after_of_error hfail]
    exact ⟨hu, hR, hfollows, hnow⟩

/-! ### The rest of a tick -/

/-- A transform moved to the left by what a star of some speed goes in some time. Leaving the
scene it starts over. -/
def drift (width dt speed : Single) (t : Transform) : Transform :=
  { t with position := { t.position with x := (t.position.x - speed * dt).remEuclid width } }

theorem scroll_eq (width dt : Single) (i : Nat) (speed : Single) (w : World (Stocked κ)) :
    scroll width dt i speed w =
      (World.edit (.transform : Stocked κ) (w.pool.current (.ofNat i)) (drift width dt speed) >>=
        fun old => if old.isSome then
          World.markDirty (.transform : Stocked κ) (w.pool.current (.ofNat i)) >>= fun _ => pure ()
        else pure ()) w := rfl

/-- Where there are transforms a scroll does not fail. A transform that moves is
recorded as written. -/
theorem scroll_of_isRegistered {w : World (Stocked κ)}
    (hk : w.isRegistered (.transform : Stocked κ)) (width dt : Single) (i : Nat) (speed : Single) :
    scroll width dt i speed w = .ok ()
      (if (w.get? .transform (w.pool.current (.ofNat i))).isSome then
        (w.rework (.transform : Stocked κ) (·.modify (w.pool.current (.ofNat i)).slot
          (drift width dt speed))).stamp .transform (w.pool.current (.ofNat i))
      else w) := by
  have hedit := edit_eq (.transform : Stocked κ) (w.pool.current (.ofNat i)) (drift width dt speed) w
  rw [if_pos hk] at hedit
  refine (scroll_eq width dt i speed w).trans ((bind_of_ok hedit).trans ?_)
  by_cases hg : (w.get? (.transform : Stocked κ) (w.pool.current (.ofNat i))).isSome
  · have hmoved : ((w.rework (.transform : Stocked κ)
        (·.modify (w.pool.current (.ofNat i)).slot (drift width dt speed))).get? .transform
        (w.pool.current (.ofNat i))).isSome := by
      rw [get?_rework_modify_self, Option.isSome_map]
      exact hg
    rw [if_pos hg, if_pos hg, if_pos hg]
    exact bind_of_ok (markDirty_of_get? hmoved)
  · rw [if_neg hg, if_neg hg, if_neg hg]
    rfl

theorem after_scroll (width dt : Single) (i : Nat) (speed : Single) (w : World (Stocked κ)) :
    after (scroll width dt i speed) w =
      if (w.get? .transform (w.pool.current (.ofNat i))).isSome then
        (w.rework (.transform : Stocked κ) (·.modify (w.pool.current (.ofNat i)).slot
          (drift width dt speed))).stamp .transform (w.pool.current (.ofNat i))
      else w := by
  by_cases hk : w.isRegistered (.transform : Stocked κ)
  · exact after_of_ok (scroll_of_isRegistered hk width dt i speed)
  · have hedit := edit_eq (.transform : Stocked κ) (w.pool.current (.ofNat i))
      (drift width dt speed) w
    rw [if_neg hk] at hedit
    have hscroll := (scroll_eq width dt i speed w).trans (bind_of_error hedit)
    rw [after_of_error hscroll, get?_eq_none_of_not_isRegistered hk]
    rfl

theorem preserves_spawn_settled : Preserves (Settled P p) World.spawn := by
  rintro w ⟨h, hnow⟩
  have hpool := h.wellFormed.pool
  have houtcome := Operation.outcome_apply hpool .spawn
  change Settled P p (Operation.spawn.apply w)
  generalize Operation.spawn.events w = xs, Operation.spawn.apply w = w' at houtcome
  cases houtcome with
  | refused => exact ⟨h, hnow⟩
  | spawn hs =>
    have hpool' := SlotPool.wellFormed_of_spawn hpool hs
    exact ⟨h.enter (SlotPool.enters_of_spawn hpool hs) hpool', hnow⟩

/-- A write is recorded as it happens. -/
theorem preserves_write_settled {α : Type} {act : World.Action (Stocked κ) α} {k : Stocked κ}
    {e : Handle} {v : Value k} {a : α}
    (hact : ∀ w : World (Stocked κ), act w = match w.refusal? k e with
      | some cause => .error cause w
      | none => .ok a (w.write k e (some v))) :
    Preserves (Settled P p) act := by
  rintro w ⟨h, hnow⟩
  have hw := hact w
  cases hr : w.refusal? k e with
  | some cause =>
    rw [hr] at hw
    rw [after_of_error hw]
    exact ⟨h, hnow⟩
  | none =>
    obtain ⟨hk, he⟩ := refusal?_eq_none_iff.mp hr
    rw [hr] at hw
    rw [after_of_ok hw]
    exact ⟨h.write hk he v hnow, hnow⟩

theorem preserves_scroll_settled (width dt : Single) (i : Nat) (speed : Single) :
    Preserves (Settled P p) (scroll width dt i speed : World.Action (Stocked κ) Unit) := by
  rintro w ⟨h, hnow⟩
  rw [after_scroll]
  split
  · next hg =>
    exact ⟨Follows.revise (k := (.transform : Stocked κ)) h hg _ hnow, hnow⟩
  · exact ⟨h, hnow⟩

/-- **A tick stamps what it changes.** -/
theorem settled_stir (h : Follows P p (fun _ _ => False) s.world) (hp : p (s.tick + 1))
    (dt : Double) : Settled P p (after (stir dt) s).world := by
  have hbegun : Settled P p (s.world.setVersion (s.tick + 1)) := ⟨h.setVersion _, hp⟩
  exact (within_stir hbegun dt (preserves_ageParticles_settled _ _ _)
    (preserves_refillParticles preserves_spawn_settled
      (fun e v => preserves_write_settled (emplace_eq _ e _))
      fun e v => preserves_write_settled (add_eq _ e v))
    (preserves_scrollStars preserves_scroll_settled _)).2.2

end Simulation
end EntityWorld
