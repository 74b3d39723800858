/-
# Who goes in a tick

Where the stock kinds are registered and every component is in a slot where somebody
lives, the particles of a scene age without fail, and the entities of those that come
to their end go: exactly these (`Simulation.exists_ageParticles_thinned`). Who goes is
known from the world before (`World.expires`).

Particles are gone to by the slots they were found in. While the entities of some end
the others stay where they are, and what they have stays as it is (`World.Thinned`).

Key definitions: `World.Staged`, `World.expires`, `World.Thinned`.
Key theorems: `SlotPool.WellFormed.serve_kills`,
`SlotPool.WellFormed.generation_serve_kills`, `World.Thinned.kill`,
`Simulation.exists_ageParticles_thinned`.
-/
import EntityWorld.Proofs.Ageing
import EntityWorld.Proofs.Census
import EntityWorld.Proofs.HighWater
import Mathlib.Tactic

namespace EntityWorld

/-! ### Kills in a row -/

namespace SlotPool

variable {p : SlotPool} {es : List Handle}

theorem Leaves.generation_ne {q : SlotPool} {e : Handle} (h : Leaves p e q) :
    (q.slotAt e.slot).generation ≠ e.generation := by
  rw [h.slotAt_eq, if_pos rfl]
  exact fun heq => absurd (UInt32.add_eq_left.mp heq) (by decide)

theorem serve_kills_concat (p : SlotPool) (es : List Handle) (e : Handle) :
    p.serve ((es ++ [e]).map .kill) = after (kill e) (p.serve (es.map .kill)) := by
  simp only [serve, List.map_append, List.foldl_append]
  rfl

/-- The first of some who are killed leaves, and the others are alive still. -/
theorem WellFormed.exists_serve_kill {e : Handle} (hp : p.WellFormed) (hnodup : (e :: es).Nodup)
    (hes : ∀ e' ∈ e :: es, p.isAlive e') :
    ∃ q, kill e p = .ok () q ∧ p.serve ((e :: es).map .kill) = q.serve (es.map .kill) ∧
      q.WellFormed ∧ es.Nodup ∧ ∀ e' ∈ es, q.isAlive e' := by
  have he := hes e List.mem_cons_self
  obtain ⟨hnew, hnodup⟩ := List.nodup_cons.mp hnodup
  obtain ⟨q, hk⟩ : ∃ q, kill e p = .ok () q := ⟨_, if_pos he⟩
  refine ⟨q, hk, ?_, wellFormed_of_kill hp hk, hnodup, fun e' he' => ?_⟩
  · exact congrArg (fun r => SlotPool.serve r (es.map .kill)) (after_of_ok hk)
  · exact (leaves_of_kill hk).isAlive_iff.mpr
      ⟨fun heq => hnew (heq ▸ he'), hes e' (List.mem_cons_of_mem e he')⟩

/-- Those who are killed go, each out of one slot, and nobody else. -/
theorem WellFormed.serve_kills (hp : p.WellFormed) (hnodup : es.Nodup)
    (hes : ∀ e ∈ es, p.isAlive e) :
    (p.serve (es.map .kill)).slots.size = p.slots.size ∧
      (p.serve (es.map .kill)).liveCount + es.length = p.liveCount ∧
      ∀ e, (p.serve (es.map .kill)).isAlive e ↔ e ∉ es ∧ p.isAlive e := by
  induction es generalizing p with
  | nil => exact ⟨rfl, rfl, fun e => ⟨fun he => ⟨List.not_mem_nil, he⟩, And.right⟩⟩
  | cons e es ih =>
    obtain ⟨q, hk, hserve, hq, hrest, halive⟩ := hp.exists_serve_kill hnodup hes
    have hleaves := leaves_of_kill hk
    obtain ⟨hsize, hcount, hiff⟩ := ih hq hrest halive
    rw [hserve]
    refine ⟨hsize.trans hleaves.size_eq, ?_, fun e' => ?_⟩
    · have hpos := hp.liveCount_pos hleaves.alive
      have hone := (eq_of_kill hk).2.2
      rw [List.length_cons]
      omega
    · rw [hiff, hleaves.isAlive_iff, List.mem_cons, not_or, ← and_assoc, and_comm (a := e' ∉ es)]

/-- Those who are killed leave their slots to the next generation, one each. -/
theorem WellFormed.generation_serve_kills (hp : p.WellFormed) (hnodup : es.Nodup)
    (hes : ∀ e ∈ es, p.isAlive e) (i : Nat) :
    ((p.serve (es.map .kill)).slotAt i).generation =
      (p.slotAt i).generation + if i ∈ es.map Handle.slot then 1 else 0 := by
  induction es generalizing p with
  | nil => exact (UInt32.add_zero _).symm
  | cons e es ih =>
    obtain ⟨q, hk, hserve, hq, hrest, halive⟩ := hp.exists_serve_kill hnodup hes
    have hleaves := leaves_of_kill hk
    rw [hserve, ih hq hrest halive, hleaves.slotAt_eq]
    by_cases hi : i = e.slot
    · -- the slot is empty by now, so none of the others lives there
      have hother : i ∉ es.map Handle.slot := fun hm => by
        obtain ⟨e', he', rfl⟩ := List.mem_map.mp hm
        have hvacant := (isAlive_iff_slotAt.mp (halive e' he')).1
        rw [hleaves.slotAt_eq, if_pos hi] at hvacant
        cases hvacant
      have hfirst : i ∈ (e :: es).map Handle.slot := hi ▸ List.mem_cons_self
      rw [if_pos hi, if_neg hother, if_pos hfirst, hi, (isAlive_iff_slotAt.mp hleaves.alive).2]
      exact UInt32.add_zero _
    · rw [if_neg hi]
      simp only [List.map_cons, List.mem_cons, hi, false_or]

end SlotPool

variable {κ : Type} [Family κ] [DecidableEq κ]

namespace World

variable {P w w' : World (Stocked κ)} {e : Handle} {ks : List Handle}

/-! ### The stage -/

/-- What a tick goes for is there. -/
structure Staged (w : World (Stocked κ)) : Prop where
  housed : w.Housed
  particle : w.isRegistered (.particle : Stocked κ)
  star : w.isRegistered (.star : Stocked κ)
  transform : w.isRegistered (.transform : Stocked κ)

theorem Staged.change (hw : w.Staged) (op : Operation (Stocked κ)) (h : Change op w w') :
    w'.Staged where
  housed := h.housed hw.housed
  particle := h.keepsKinds.isRegistered hw.housed.tagsDistinct hw.particle
  star := h.keepsKinds.isRegistered hw.housed.tagsDistinct hw.star
  transform := h.keepsKinds.isRegistered hw.housed.tagsDistinct hw.transform

theorem Staged.write (hw : w.Staged) {k : Stocked κ} (hk : w.isRegistered k) (he : w.isAlive e)
    (v : Value k) : (w.write k e (some v)).Staged :=
  hw.change (.add k e v) (.write (some v) hk he)

/-! ### Particles at their end -/

/-- Whether an entity has a particle that is at its end when it is older by some time. -/
def expires (w : World (Stocked κ)) (dt : Single) (e : Handle) : Bool :=
  (w.get? (.particle : Stocked κ) e).any fun p => Particle.isExpired (Particle.age dt p)

theorem isAlive_of_expires {dt : Single} (h : w.expires dt e) : w.isAlive e :=
  isAlive_of_get? (k := (.particle : Stocked κ)) (Option.isSome_of_any h)

theorem expires_eq_any_rework (w : World (Stocked κ)) (dt : Single) (e : Handle) :
    w.expires dt e =
      ((w.rework (.particle : Stocked κ) (·.map (Particle.age dt))).get? .particle e).any
        Particle.isExpired := by
  rw [get?_rework_map, expires, Option.any_map]
  rfl

/-- Some entities that had a particle in `P` were killed since, and nobody else came or
went or got other components. -/
structure Thinned (P : World (Stocked κ)) (ks : List Handle) (w : World (Stocked κ)) : Prop where
  staged : w.Staged
  nodup : ks.Nodup
  particle : ∀ e ∈ ks, (P.get? (.particle : Stocked κ) e).isSome
  pool : w.pool = P.pool.serve (ks.map .kill)
  census : w.census (.particle : Stocked κ) + ks.length = P.census (.particle : Stocked κ)
  forms_eq : w.forms = P.forms
  get?_eq : ∀ k e, e ∉ ks → w.get? k e = P.get? k e
  /-- Whoever comes to the slot of one of them is another. -/
  generation_ne : ∀ e ∈ ks, (w.pool.slotAt e.slot).generation ≠ e.generation

namespace Thinned

theorem refl (hP : P.Staged) : Thinned P [] P where
  staged := hP
  nodup := List.nodup_nil
  particle _ := nofun
  pool := rfl
  census := rfl
  forms_eq := rfl
  get?_eq _ _ _ := rfl
  generation_ne _ := nofun

theorem isAlive_of_mem (h : Thinned P ks w) : ∀ e ∈ ks, P.isAlive e :=
  fun e he => isAlive_of_get? (h.particle e he)

theorem isAlive_iff (h : Thinned P ks w) (hP : P.pool.WellFormed) :
    w.isAlive e ↔ e ∉ ks ∧ P.isAlive e := by
  unfold isAlive
  rw [h.pool]
  exact (hP.serve_kills h.nodup h.isAlive_of_mem).2.2 e

theorem liveCount (h : Thinned P ks w) (hP : P.pool.WellFormed) :
    w.pool.liveCount + ks.length = P.pool.liveCount := by
  rw [h.pool]
  exact (hP.serve_kills h.nodup h.isAlive_of_mem).2.1

theorem touch (h : Thinned P ks w) (hg : (w.get? (.particle : Stocked κ) e).isSome) :
    Thinned P ks (w.stamp (.particle : Stocked κ) e) :=
  { h with
    staged := h.staged.change (.markDirty _ e) (.stamp (isRegistered_of_get? hg) hg)
    census := h.census
    forms_eq := h.forms_eq
    get?_eq := h.get?_eq }

theorem kill (h : Thinned P ks w) (hg : (w.get? (.particle : Stocked κ) e).isSome)
    (hnew : e ∉ ks) {pool : SlotPool} (hk : SlotPool.kill e w.pool = .ok () pool) :
    Thinned P (ks ++ [e]) (w.leave e pool) := by
  have hleaves := SlotPool.leaves_of_kill hk
  have hwf := SlotPool.wellFormed_of_kill h.staged.housed.pool hk
  have hcensus : (w.leave e pool).census (.particle : Stocked κ) + 1 = w.census .particle := by
    have hleave := census_leave (k := (.particle : Stocked κ)) hleaves
    rwa [if_pos hg] at hleave
  have hall := h.census
  refine ⟨h.staged.change (.kill e) (.leave hleaves hwf), ?_, fun e' he' => ?_, ?_, ?_,
    forms_leave.trans h.forms_eq, fun k e' he' => ?_, fun e' he' => ?_⟩
  · rw [List.nodup_append_comm]
    exact List.nodup_cons.mpr ⟨hnew, h.nodup⟩
  · rcases List.mem_append.mp he' with hm | hm
    · exact h.particle e' hm
    · rw [List.mem_singleton.mp hm, ← h.get?_eq _ _ hnew]
      exact hg
  · rw [SlotPool.serve_kills_concat, ← h.pool, after_of_ok hk]
    rfl
  · rw [List.length_append, List.length_singleton]
    omega
  · obtain ⟨hold, hne⟩ := not_or.mp (List.mem_append.not.mp he')
    rw [get?_leave hleaves, if_neg fun heq => hne (List.mem_singleton.mpr heq)]
    exact h.get?_eq k e' hold
  · change (pool.slotAt e'.slot).generation ≠ _
    rcases List.mem_append.mp he' with hm | hm
    · -- no two of those who lived in `P` share a slot
      have halive : P.isAlive e := isAlive_of_get? (h.get?_eq _ _ hnew ▸ hg)
      have hslot : e'.slot ≠ e.slot := fun hs =>
        hnew (SlotPool.eq_of_isAlive (h.isAlive_of_mem e' hm) halive hs ▸ hm)
      rw [hleaves.slotAt_eq, if_neg hslot]
      exact h.generation_ne e' hm
    · rw [List.mem_singleton.mp hm]
      exact hleaves.generation_ne

end Thinned

/-- The particles of some are still to be recorded, and of the dead some went and the
others are still to go. -/
structure Culling (P : World (Stocked κ)) (dead living dying : List Handle)
    (w : World (Stocked κ)) : Prop where
  present : ∀ e ∈ living, (w.get? (.particle : Stocked κ) e).isSome
  gone : ∃ ks, ks ++ dying = dead ∧ Thinned P ks w

namespace Culling

variable {dead living dying : List Handle} {i : Nat}

theorem touch (h : Culling P dead (e :: living) dying w) (hi : e.index = .ofNat i) :
    ∃ w', Simulation.touchParticle i w = .ok () w' ∧ Culling P dead living dying w' := by
  have hg := h.present e List.mem_cons_self
  obtain ⟨ks, hks, hthin⟩ := h.gone
  exact ⟨_, Simulation.touchParticle_of_get? hg hi,
    fun e' he' => h.present e' (List.mem_cons_of_mem e he'), ks, hks, hthin.touch hg⟩

theorem kill (h : Culling P dead [] (e :: dying) w) (hnodup : dead.Nodup)
    (hpresent : ∀ e ∈ dead, (P.get? (.particle : Stocked κ) e).isSome) (hi : e.index = .ofNat i) :
    ∃ w', Simulation.killAt i w = .ok () w' ∧ Culling P dead [] dying w' := by
  obtain ⟨ks, hks, hthin⟩ := h.gone
  have hdead : e ∈ dead := hks ▸ List.mem_append_right _ List.mem_cons_self
  have hnew : e ∉ ks := fun hm =>
    (List.nodup_append.mp (hks ▸ hnodup)).2.2 e hm e List.mem_cons_self rfl
  have hg : (w.get? (.particle : Stocked κ) e).isSome := by
    rw [hthin.get?_eq _ _ hnew]
    exact hpresent e hdead
  obtain ⟨pool, hk, hkill⟩ := Simulation.killAt_of_isAlive (isAlive_of_get? hg) hi
  refine ⟨_, hkill, fun _ => nofun, ks ++ [e], ?_, hthin.kill hg hnew hk⟩
  rw [← hks, List.append_assoc]
  rfl

end Culling
end World

namespace Simulation

open World

variable {s : Simulation κ}

/-- **Ageing ends those whose time has come.** It does not fail, and the entities of the
particles that are at their end once they are older go, and nobody else. -/
theorem exists_ageParticles_thinned (h : s.world.Staged) (dt : Single) :
    ∃ ks u, ageParticles dt s = .ok () { s with world := u, expired := s.expired + ks.length } ∧
      Thinned (s.world.rework (.particle : Stocked κ) (·.map (Particle.age dt))) ks u ∧
      ∀ e, e ∈ ks ↔ s.world.expires dt e := by
  let P := s.world.rework (.particle : Stocked κ) (·.map (Particle.age dt))
  have hP : P.Staged := h.change (.editAll (.particle : Stocked κ) (Particle.age dt)) (.editAll _)
  obtain ⟨c, hc⟩ := Option.isSome_iff_exists.mp (isRegistered_iff_column?.mp hP.particle)
  let handle (x : Nat × Particle) : Handle := P.pool.current (.ofNat x.1)
  let dead := (c.present.filter fun x => Particle.isExpired x.2).map handle
  have hmem : ∀ e, e ∈ dead ↔ s.world.expires dt e := fun e => by
    rw [expires_eq_any_rework]
    exact mem_map_current_filter_iff hP.housed hc Particle.isExpired
  have hpresent : ∀ e ∈ dead, (P.get? (.particle : Stocked κ) e).isSome := fun e he =>
    Option.isSome_of_any ((expires_eq_any_rework s.world dt e).symm.trans ((hmem e).mp he))
  have hnodup : dead.Nodup :=
    (nodup_map_current hP.housed hc).sublist (List.filter_sublist.map _)
  have hstart : Culling P dead ((c.present.filter fun x => !Particle.isExpired x.2).map handle)
      dead P := by
    refine ⟨fun e he => (mem_map_current_iff hP.housed hc).mp ?_, [], rfl, .refl hP⟩
    exact (List.filter_sublist.map handle).subset he
  obtain ⟨u, hok, -, ks, hks, hthin⟩ := exists_ageParticles_each dt rfl h.particle hc
    (Q := fun xs ys u => Culling P dead (xs.map handle) (ys.map handle) u) hstart
    (fun _ _ _ _ hq => hq.touch rfl) fun _ _ _ hq => hq.kill hnodup hpresent rfl
  rw [List.map_nil, List.append_nil] at hks
  subst hks
  have hlength : dead.length = (c.present.filter fun x => Particle.isExpired x.2).length :=
    List.length_map _
  refine ⟨dead, u, ?_, hthin, hmem⟩
  rw [hlength]
  exact hok

end Simulation
end EntityWorld
