/-
# Who comes in a tick

A tick makes up for the particles that are missing. One new entity after the other
takes a slot, with a particle and a place and nothing else (`World.arrive`), so all of
them together are that many more particles and leave everybody else alone
(`World.Joined`). One thing can be wanting: a slot. So all of them come exactly if the
slots that are left are enough, and otherwise as many as there are slots
(`Simulation.exists_refillParticles`).

Key definitions: `World.Room`, `World.arrive`, `World.Joined`.
Key theorems: `World.Staged.get?_arrive`, `World.Joined.cons`,
`Simulation.exists_refillParticles`.
-/
import EntityWorld.Proofs.Culling
import Mathlib.Tactic

namespace EntityWorld

theorem SlotPool.Enters.generation_eq {p q : SlotPool} {e : Handle} (h : p.Enters e q) (j : Nat) :
    (q.slotAt j).generation = (p.slotAt j).generation := by
  rw [h.slotAt_eq]
  split <;> rfl

variable {κ : Type} [Family κ] [DecidableEq κ]

namespace World

variable {w u : World (Stocked κ)} {e : Handle} {es : List Handle} {pool : SlotPool} {n : Nat}

/-! ### Room -/

/-- The slots that are left are enough to keep up `n` particles. -/
def Room (n : Nat) (w : World (Stocked κ)) : Prop :=
  w.pool.liveCount + (n - w.census (.particle : Stocked κ)) ≤ SlotPool.limit.toNat

instance : Decidable (w.Room n) := inferInstanceAs (Decidable (_ ≤ _))

omit [DecidableEq κ] in
theorem Housed.liveCount_le (hw : w.Housed) : w.pool.liveCount ≤ SlotPool.limit.toNat :=
  hw.pool.liveCount_le.trans hw.pool.size_le

/-- Where no particle is missing nothing is wanting. -/
theorem room_of_le_census (hw : w.Housed) (h : n ≤ w.census (.particle : Stocked κ)) :
    w.Room n := by
  unfold Room
  rw [Nat.sub_eq_zero_of_le h, Nat.add_zero]
  exact hw.liveCount_le

/-- Particles that went, and nobody else, leave the slots that make up for them. -/
theorem Thinned.room_iff {P : World (Stocked κ)} (h : Thinned P es w) (hP : P.Housed) :
    w.Room n ↔ P.Room n := by
  have hlive := hP.liveCount_le
  have hcount := h.liveCount hP.pool
  have hcensus := h.census
  unfold Room
  omega

/-! ### One more particle -/

/-- The world after somebody came, with a particle and a place. -/
def arrive (w : World (Stocked κ)) (e : Handle) (pool : SlotPool) (p : Particle) (t : Transform) :
    World (Stocked κ) :=
  ((w.enter e pool).write (.particle : Stocked κ) e (some p)).write (.transform : Stocked κ) e (some t)

section Arrive

variable {p : Particle} {t : Transform}

theorem Staged.enter (h : w.Staged) (hs : SlotPool.spawn w.pool = .ok e pool) :
    (w.enter e pool).Staged ∧ (w.enter e pool).isAlive e := by
  have henters := SlotPool.enters_of_spawn h.housed.pool hs
  have hwf := SlotPool.wellFormed_of_spawn h.housed.pool hs
  exact ⟨h.change .spawn (.enter henters hwf), henters.isAlive_iff.mpr (Or.inl rfl)⟩

theorem Staged.arrive (h : w.Staged) (hs : SlotPool.spawn w.pool = .ok e pool) :
    (w.arrive e pool p t).Staged := by
  obtain ⟨hentered, halive⟩ := h.enter hs
  have hwritten := hentered.write hentered.particle halive p
  exact hwritten.write hwritten.transform halive t

theorem forms_arrive : (w.arrive e pool p t).forms = w.forms := by
  unfold arrive
  rw [forms_write, forms_write]
  rfl

/-- Who comes has nothing in the beginning, as they leave nothing in the slot who go. -/
theorem Staged.get?_arrive (h : w.Staged) (hs : SlotPool.spawn w.pool = .ok e pool) (k : Stocked κ)
    (e' : Handle) (hk : e' = e → k ≠ .particle ∧ k ≠ .transform) :
    (w.arrive e pool p t).get? k e' = w.get? k e' := by
  obtain ⟨-, halive⟩ := h.enter hs
  have halive' : ((w.enter e pool).write (.particle : Stocked κ) e (some p)).isAlive e := halive
  unfold World.arrive
  rw [get?_write_of_ne halive' _ fun heq => (hk heq.2).2 heq.1,
    get?_write_of_ne halive _ fun heq => (hk heq.2).1 heq.1]
  exact h.housed.get?_enter (SlotPool.enters_of_spawn h.housed.pool hs) k e'

theorem Staged.isSome_get?_arrive_iff (h : w.Staged) (hs : SlotPool.spawn w.pool = .ok e pool)
    (k : Stocked κ) :
    ((w.arrive e pool p t).get? k e).isSome ↔ k = .particle ∨ k = .transform := by
  obtain ⟨hentered, halive⟩ := h.enter hs
  obtain ⟨v, hv⟩ : ∃ v, v = (w.enter e pool).write (.particle : Stocked κ) e (some p) := ⟨_, rfl⟩
  have halive' : v.isAlive e := hv ▸ halive
  have hwritten : v.Staged := hv ▸ hentered.write hentered.particle halive p
  have harrive : w.arrive e pool p t = v.write (.transform : Stocked κ) e (some t) := hv ▸ rfl
  by_cases hplace : k = .transform
  · subst hplace
    rw [harrive, get?_write_self hwritten.transform halive']
    exact iff_of_true rfl (Or.inr rfl)
  · by_cases hparticle : k = .particle
    · subst hparticle
      rw [harrive, get?_write_of_ne halive' _ fun heq => hplace heq.1, hv,
        get?_write_self hentered.particle halive]
      exact iff_of_true rfl (Or.inl rfl)
    · rw [h.get?_arrive hs k e fun _ => ⟨hparticle, hplace⟩, get?_of_not_isAlive
        ((SlotPool.enters_of_spawn h.housed.pool hs).not_isAlive rfl)]
      exact iff_of_false nofun (not_or.mpr ⟨hparticle, hplace⟩)

theorem Staged.census_arrive (h : w.Staged) (hs : SlotPool.spawn w.pool = .ok e pool) :
    (w.arrive e pool p t).census (.particle : Stocked κ) = w.census (.particle : Stocked κ) + 1 := by
  obtain ⟨hentered, halive⟩ := h.enter hs
  have hne : (.particle : Stocked κ) ≠ .transform := fun heq => by cases heq
  have henters := SlotPool.enters_of_spawn h.housed.pool hs
  have hnone : (w.enter e pool).get? (.particle : Stocked κ) e = none :=
    (h.housed.get?_enter henters _ e).trans (get?_of_not_isAlive (henters.not_isAlive rfl))
  have hwrite := census_write_self hentered.particle halive (some p)
  rw [hnone] at hwrite
  exact (census_write_of_ne _ _ hne).trans hwrite

end Arrive

/-! ### Some more particles -/

/-- Some entities came, each with a particle and a place, and nothing else has changed. -/
structure Joined (w : World (Stocked κ)) (es : List Handle) (u : World (Stocked κ)) : Prop where
  staged : u.Staged
  nodup : es.Nodup
  pool : u.pool = w.pool.serve (List.replicate es.length .spawn)
  liveCount : u.pool.liveCount = w.pool.liveCount + es.length
  census : u.census (.particle : Stocked κ) = w.census (.particle : Stocked κ) + es.length
  forms_eq : u.forms = w.forms
  isAlive_iff : ∀ e, u.isAlive e ↔ e ∈ es ∨ w.isAlive e
  fresh : ∀ e ∈ es, ¬ w.isAlive e
  generation_eq : ∀ e ∈ es, (w.pool.slotAt e.slot).generation = e.generation
  get?_of_not_mem : ∀ k e, e ∉ es → u.get? k e = w.get? k e
  isSome_get?_iff : ∀ k, ∀ e ∈ es, (u.get? k e).isSome ↔ k = .particle ∨ k = .transform

namespace Joined

theorem refl (hw : w.Staged) : w.Joined [] w where
  staged := hw
  nodup := List.nodup_nil
  pool := rfl
  liveCount := rfl
  census := rfl
  forms_eq := rfl
  isAlive_iff _ := ⟨Or.inr, fun h => h.resolve_left List.not_mem_nil⟩
  fresh _ := nofun
  generation_eq _ := nofun
  get?_of_not_mem _ _ _ := rfl
  isSome_get?_iff _ _ := nofun

/-- One comes, and then the others. -/
theorem cons (h : w.Staged) (hs : SlotPool.spawn w.pool = .ok e pool) {p : Particle}
    {t : Transform} (hes : (w.arrive e pool p t).Joined es u) : w.Joined (e :: es) u := by
  have hpool : (w.arrive e pool p t).pool = pool := rfl
  have henters := SlotPool.enters_of_spawn h.housed.pool hs
  have hcount := (SlotPool.spawn_cases h.housed.pool hs).2.1
  have halive : ∀ e', (w.arrive e pool p t).isAlive e' ↔ e' = e ∨ w.isAlive e' := fun _ =>
    henters.isAlive_iff
  have hnew : e ∉ es := fun hm => hes.fresh e hm ((halive e).mpr (Or.inl rfl))
  refine ⟨hes.staged, List.nodup_cons.mpr ⟨hnew, hes.nodup⟩, ?_, ?_, ?_, hes.forms_eq.trans forms_arrive,
    fun e' => ?_, fun e' he' => ?_, fun e' he' => ?_, fun k e' he' => ?_, fun k e' he' => ?_⟩
  · rw [hes.pool, hpool]
    exact congrArg (fun r => SlotPool.serve r (List.replicate es.length .spawn)) (after_of_ok hs).symm
  · rw [hes.liveCount, hpool, hcount, List.length_cons]
    omega
  · rw [hes.census, h.census_arrive hs, List.length_cons]
    omega
  · rw [hes.isAlive_iff, halive, List.mem_cons, or_left_comm, or_assoc]
  · rcases List.mem_cons.mp he' with rfl | hm
    · exact henters.not_isAlive rfl
    · exact fun ha => hes.fresh e' hm ((halive e').mpr (Or.inr ha))
  · rcases List.mem_cons.mp he' with rfl | hm
    · exact henters.generation
    · rw [← hes.generation_eq e' hm, hpool, henters.generation_eq]
  · obtain ⟨hne, hm⟩ := not_or.mp (List.mem_cons.not.mp he')
    rw [hes.get?_of_not_mem k e' hm, h.get?_arrive hs k e' fun heq => absurd heq hne]
  · rcases List.mem_cons.mp he' with rfl | hm
    · rw [hes.get?_of_not_mem k e' hnew]
      exact h.isSome_get?_arrive_iff hs k
    · exact hes.isSome_get?_iff k e' hm

end Joined
end World

namespace Simulation

open World

variable {s : Simulation κ} {w : World (Stocked κ)}

/-- A new particle takes the slot that a spawn takes. -/
theorem spawnParticle_of_ok {e : Handle} {pool : SlotPool} (h : w.Staged)
    (hs : SlotPool.spawn w.pool = .ok e pool) (rules : Rules) (n : Nat) :
    spawnParticle rules n w = .ok () (w.arrive e pool
      (Particle.ofLifetime (rules.particleLifetime * (1 + Single.ofNat (n % 3) * .half)))
      (Transform.ofPosition ⟨rules.width / .ofNat 2, .ofNat 300, 1⟩)) := by
  obtain ⟨hentered, halive⟩ := h.enter hs
  have hemplace : ∀ p : Particle,
      World.emplace (.particle : Stocked κ) e (fun _ => some p) (w.enter e pool) =
        .ok (some p) ((w.enter e pool).write (.particle : Stocked κ) e (some p)) := fun p => by
    rw [emplace_eq, refusal?_eq_none_iff.mpr ⟨hentered.particle, halive⟩]
  have hadd : ∀ (p : Particle) (t : Transform), World.add (.transform : Stocked κ) e t
      ((w.enter e pool).write (.particle : Stocked κ) e (some p)) =
        .ok () (w.arrive e pool p t) := fun p t => by
    have hwritten := hentered.write hentered.particle halive p
    rw [add_eq, refusal?_eq_none_iff.mpr ⟨hwritten.transform, halive⟩]
    rfl
  exact (bind_of_ok (spawn_of_ok hs)).trans ((bind_of_ok (hemplace _)).trans (hadd _ _))

/-- A new particle fails where no slot is left, and nothing has changed then. -/
theorem spawnParticle_of_full (h : w.Staged) (hall : w.pool.liveCount = SlotPool.limit.toNat)
    (rules : Rules) (n : Nat) : spawnParticle rules n w = .error (.handle .exhausted) w :=
  bind_of_error (spawn_of_error (SlotPool.spawn_of_full h.housed.pool hall))

/-- New particles come as long as slots are left. -/
theorem exists_forM_spawnParticle (h : s.world.Staged) (rules : Rules) (ns : List Nat) :
    ∃ es u, s.world.Joined es u ∧
      ((ns.forM fun n => inWorld (spawnParticle rules n)) s = .ok () { s with world := u } ∧
          es.length = ns.length ∨
        (ns.forM fun n => inWorld (spawnParticle rules n)) s =
            .error (.handle .exhausted) { s with world := u } ∧
          es.length < ns.length ∧ u.pool.liveCount = SlotPool.limit.toNat) := by
  induction ns generalizing s with
  | nil => exact ⟨[], s.world, .refl h, Or.inl ⟨rfl, rfl⟩⟩
  | cons n ns ih =>
    by_cases hroom : s.world.pool.liveCount < SlotPool.limit.toNat
    · obtain ⟨e, pool, hs⟩ := SlotPool.exists_spawn h.housed.pool hroom
      have hfirst := inWorld_of_ok (spawnParticle_of_ok h hs rules n)
      obtain ⟨es, u, hjoined, hend⟩ := ih (s := { s with world := _ }) (h.arrive hs)
      refine ⟨e :: es, u, .cons h hs hjoined, ?_⟩
      rcases hend with ⟨hall, hlength⟩ | ⟨hfail, hlength, hfull⟩
      · exact Or.inl ⟨(bind_of_ok hfirst).trans hall, congrArg (· + 1) hlength⟩
      · exact Or.inr ⟨(bind_of_ok hfirst).trans hfail, Nat.succ_lt_succ hlength, hfull⟩
    · have hall := le_antisymm h.housed.liveCount_le (Nat.le_of_not_lt hroom)
      have hfirst := inWorld_of_error (spawnParticle_of_full h hall rules n)
      exact ⟨[], s.world, .refl h, Or.inr ⟨bind_of_error hfirst, Nat.succ_pos _, hall⟩⟩

theorem refillParticles_eq (h : s.world.Staged) : refillParticles s =
    ((List.range (s.rules.particles - s.world.census (.particle : Stocked κ))).forM fun n =>
      inWorld (spawnParticle s.rules n)) s := by
  obtain ⟨c, hc⟩ := Option.isSome_iff_exists.mp (isRegistered_iff_column?.mp h.particle)
  rw [census_of_column? hc]
  exact bind_of_ok (inWorld_column hc)

/-- **The particles that are missing are made up for**, where there is room for them, and
as long as slots are left where there is not. -/
theorem exists_refillParticles (h : s.world.Staged) :
    ∃ es u, s.world.Joined es u ∧
      if s.world.Room s.rules.particles then
        refillParticles s = .ok () { s with world := u } ∧
          es.length = s.rules.particles - s.world.census (.particle : Stocked κ)
      else
        refillParticles s = .error (.handle .exhausted) { s with world := u } ∧
          es.length < s.rules.particles - s.world.census (.particle : Stocked κ) ∧
          u.pool.liveCount = SlotPool.limit.toNat := by
  rw [refillParticles_eq h]
  obtain ⟨es, u, hjoined, hend⟩ := exists_forM_spawnParticle h s.rules
    (List.range (s.rules.particles - s.world.census (.particle : Stocked κ)))
  rw [List.length_range] at hend
  have hcount := hjoined.liveCount
  have hlimit := hjoined.staged.housed.liveCount_le
  refine ⟨es, u, hjoined, ?_⟩
  rcases hend with ⟨hall, hlength⟩ | ⟨hfail, hlength, hfull⟩
  · have hroom : s.world.Room s.rules.particles := by
      unfold Room
      omega
    rw [if_pos hroom]
    exact ⟨hall, hlength⟩
  · have hroom : ¬ s.world.Room s.rules.particles := by
      unfold Room
      omega
    rw [if_neg hroom]
    exact ⟨hfail, hlength, hfull⟩

end Simulation
end EntityWorld
