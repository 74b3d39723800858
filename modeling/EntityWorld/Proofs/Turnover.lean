/-
# Ticks take no more slots than they leave

The particles that end in a tick leave their slots before new ones come, and the new
ones take those first (`SlotPool.turnOver`). A tick makes up for the particles that
are missing, or takes all slots that there can be, so after the first one a scene
is `Simulation.Sated`: it never misses more particles than have just ended, or has
no room for more. From then on the slots that are left in a tick are enough for all
who come in it: no slot is opened any more, and no more particles come than go.

A tick that fails for want of a slot counts too. It stops where all slots are
taken, so it leaves a scene sated as well.

Who is killed in a tick is killed once, so a slot goes on by one generation at most
(`Simulation.Turnover.generation_eq`), and generations do not start over in fewer ticks
than are left of them.

Key definitions: `SlotPool.turnOver`, `Simulation.Turnover`, `Simulation.Sated`.
Key theorems: `SlotPool.WellFormed.turnOver`, `Simulation.Ready.exists_turnover`,
`Simulation.Sated.le_length`, `Simulation.Ready.recycles`,
`Simulation.Ready.payload?_afterTicks`.
-/
import EntityWorld.Proofs.Endurance
import Mathlib.Tactic

namespace EntityWorld

/-! ### Kills, then spawns -/

namespace SlotPool

variable {p q : SlotPool} {e : Handle} {es : List Handle} {m : Nat}

/-- The pool after some kills and then some spawns. -/
def turnOver (p : SlotPool) (es : List Handle) (m : Nat) : SlotPool :=
  (p.serve (es.map .kill)).serve (List.replicate m .spawn)

namespace WellFormed

/-- Where enough slots are free no spawn opens one. -/
theorem serve_spawns (hp : p.WellFormed) (hm : m ≤ p.free.size) :
    (p.serve (List.replicate m .spawn)).slots.size = p.slots.size ∧
      (p.serve (List.replicate m .spawn)).liveCount = p.liveCount + m ∧
      ∀ e, (p.serve (List.replicate m .spawn)).isAlive e → p.isAlive e ∨ e.index ∈ p.free := by
  induction m generalizing p with
  | zero => exact ⟨rfl, rfl, fun e he => Or.inl he⟩
  | succ m ih =>
    have hall := hp.liveCount_add_size_free
    have hlimit := hp.size_le
    obtain ⟨e, q, hs⟩ := exists_spawn hp (by omega)
    have hq := wellFormed_of_spawn hp hs
    have henters := enters_of_spawn hp hs
    have hserve : p.serve (List.replicate (m + 1) .spawn) = q.serve (List.replicate m .spawn) :=
      congrArg (fun r => SlotPool.serve r (List.replicate m .spawn)) (after_of_ok hs)
    obtain ⟨-, hcount, hslot⟩ := spawn_cases hp hs
    rcases hslot with ⟨htake, hsize⟩ | ⟨hempty, -⟩
    · have hperm := perm_of_takeFree htake
      have hlength := hperm.length_eq
      simp only [Array.length_toList, List.length_cons] at hlength
      obtain ⟨hsize', hcount', hcome⟩ := ih hq (by omega)
      rw [hserve]
      refine ⟨hsize'.trans hsize, by omega, fun e' he' => ?_⟩
      rcases hcome e' he' with ha | hfree
      · refine (henters.isAlive_iff.mp ha).elim (fun heq => Or.inr ?_) Or.inl
        rw [heq, ← Array.mem_toList_iff]
        exact hperm.mem_iff.mpr List.mem_cons_self
      · refine Or.inr (Array.mem_toList_iff.mp (hperm.mem_iff.mpr ?_))
        exact List.mem_cons_of_mem _ (Array.mem_toList_iff.mpr hfree)
    · rw [hempty, Array.size_empty] at hm
      omega

/-- No slot changes its generation when somebody comes. -/
theorem generation_serve_spawns (hp : p.WellFormed) (i : Nat) :
    ((p.serve (List.replicate m .spawn)).slotAt i).generation = (p.slotAt i).generation := by
  induction m generalizing p with
  | zero => rfl
  | succ m ih =>
    refine (ih (hp.apply .spawn)).trans ?_
    change ((after spawn p).slotAt i).generation = _
    cases hs : spawn p with
    | ok e q =>
      rw [after_of_ok hs]
      exact (enters_of_spawn hp hs).generation_eq i
    | error c q => rw [after_of_error hs, eq_of_spawn_error hs]

/-- If no more come than go, no slot is opened, and who comes takes one that is free. -/
theorem turnOver (hp : p.WellFormed) (hnodup : es.Nodup) (hes : ∀ e ∈ es, p.isAlive e)
    (hm : m ≤ es.length) :
    (p.turnOver es m).slots.size = p.slots.size ∧
      (p.turnOver es m).liveCount + es.length = p.liveCount + m ∧
      ∀ e, (p.turnOver es m).isAlive e →
        p.isAlive e ∧ e ∉ es ∨ e.index ∈ (p.serve (es.map .kill)).free := by
  obtain ⟨hsize, hcount, hiff⟩ := hp.serve_kills hnodup hes
  have hq := hp.serve (es.map .kill)
  have hall := hq.liveCount_add_size_free
  have hle := hp.liveCount_le
  obtain ⟨hsize', hcount', hcome⟩ := hq.serve_spawns (m := m) (by omega)
  unfold SlotPool.turnOver
  refine ⟨hsize'.trans hsize, by omega, fun e he => ?_⟩
  exact (hcome e he).imp (fun ha => ((hiff e).mp ha).symm) id

end WellFormed
end SlotPool

variable {κ : Type} [Family κ] [DecidableEq κ]

namespace Simulation

open World

variable {s t : Simulation κ} {ks : List Handle} {m : Nat}

/-- Some particles went with their entities, and then some came. -/
structure Turnover (s t : Simulation κ) (ks : List Handle) (m : Nat) : Prop where
  nodup : ks.Nodup
  particle : ∀ e ∈ ks, (s.world.get? (.particle : Stocked κ) e).isSome
  pool : t.world.pool = s.world.pool.turnOver ks m
  census : t.world.census (.particle : Stocked κ) + ks.length =
    s.world.census (.particle : Stocked κ) + m

/-- Particles are not missing, or no slot is left for them. -/
def Sated (s : Simulation κ) : Prop :=
  s.rules.particles ≤ s.world.census (.particle : Stocked κ) ∨
    s.world.pool.liveCount = SlotPool.limit.toNat

/-- A tick lets particles go and others come, up to the number to keep up or as long as
slots are left. -/
theorem Ready.exists_turnover (h : s.Ready) (dt : Double) :
    ∃ ks m, Turnover s (after (Simulation.advance dt) s) ks m ∧
      m ≤ s.rules.particles + ks.length - s.world.census (.particle : Stocked κ) ∧
      (after (Simulation.advance dt) s).world.pool.liveCount + ks.length =
        s.world.pool.liveCount + m ∧
      (after (Simulation.advance dt) s).Sated := by
  obtain ⟨ks, es, w₁, w₂, hcourse⟩ := h.exists_course dt
  have hthin := hcourse.thinned
  have hparticle : ∀ e ∈ ks, (s.world.get? (.particle : Stocked κ) e).isSome := fun e he => by
    have hg := hthin.particle e he
    rwa [get?_rework_map, Option.isSome_map] at hg
  have hlive := hcourse.liveCount h
  have hcensus := hcourse.census
  have hleft := hcourse.census_thinned
  have hpool := hcourse.moved.pool_eq
  have houtcome : es.length = s.rules.particles - w₁.census (.particle : Stocked κ) ∨
      es.length < s.rules.particles - w₁.census (.particle : Stocked κ) ∧
        w₂.pool.liveCount = SlotPool.limit.toNat := by
    have hcases := hcourse.outcome
    split at hcases
    · exact Or.inl hcases.2.1
    · exact Or.inr ⟨hcases.2.1, hcases.2.2.2⟩
  refine ⟨ks, es.length, ⟨hthin.nodup, hparticle, ?_, hcensus⟩, by omega, hlive, ?_⟩
  · rw [hpool, hcourse.joined.pool, hthin.pool]
    rfl
  · unfold Sated
    rw [hcourse.rules, hpool]
    omega

/-- In a sated scene no more particles come than go. -/
theorem Sated.le_length (hs : s.Sated) (ht : t.world.Housed)
    (hm : m ≤ s.rules.particles + ks.length - s.world.census (.particle : Stocked κ))
    (hcount : t.world.pool.liveCount + ks.length = s.world.pool.liveCount + m) :
    m ≤ ks.length := by
  have hlimit := ht.liveCount_le
  unfold Sated at hs
  omega

/-- A tick in a sated scene. -/
theorem Ready.advance_of_sated (h : s.Ready) (hs : s.Sated) (dt : Double) :
    (after (Simulation.advance dt) s).world.pool.slots.size = s.world.pool.slots.size ∧
      (after (Simulation.advance dt) s).world.pool.liveCount ≤ s.world.pool.liveCount ∧
      ∃ ks m, m ≤ ks.length ∧ Turnover s (after (Simulation.advance dt) s) ks m ∧
        ∀ e, (after (Simulation.advance dt) s).world.isAlive e →
          s.world.isAlive e ∧ e ∉ ks ∨ e.index ∈ (s.world.pool.serve (ks.map .kill)).free := by
  obtain ⟨ks, m, hturn, hmiss, hcount, -⟩ := h.exists_turnover dt
  have hm := hs.le_length (h.after_advance dt).staged.housed hmiss hcount
  obtain ⟨hsize, -, hcome⟩ := h.staged.housed.pool.turnOver hturn.nodup
    (fun e he => isAlive_of_get? (hturn.particle e he)) hm
  refine ⟨?_, by omega, ks, m, hm, hturn, fun e he => hcome e ?_⟩
  · rw [hturn.pool]
    exact hsize
  · rw [← hturn.pool]
    exact he

/-- Any number of ticks in a sated scene. -/
theorem Ready.afterTicks_of_sated (h : s.Ready) (hs : s.Sated) (dts : List Double) :
    (s.afterTicks dts).Ready ∧ (s.afterTicks dts).Sated ∧
      (s.afterTicks dts).world.pool.slots.size = s.world.pool.slots.size := by
  induction dts generalizing s with
  | nil => exact ⟨h, hs, rfl⟩
  | cons dt dts ih =>
    obtain ⟨-, -, -, -, -, hsated⟩ := h.exists_turnover dt
    obtain ⟨hready, hsated', hsize⟩ := ih (h.after_advance dt) hsated
    exact ⟨hready, hsated', hsize.trans (h.advance_of_sated hs dt).1⟩

/-! ### Generations -/

/-- A tick moves a slot on by one generation at most. -/
theorem Turnover.generation_eq (h : Turnover s t ks m) (hp : s.world.pool.WellFormed) (i : Nat) :
    (t.world.pool.slotAt i).generation = (s.world.pool.slotAt i).generation +
      if i ∈ ks.map Handle.slot then 1 else 0 := by
  rw [h.pool, SlotPool.turnOver, (hp.serve _).generation_serve_spawns]
  exact hp.generation_serve_kills h.nodup (fun e he => isAlive_of_get? (h.particle e he)) i

/-- Where a generation is left, the slot does not start over. -/
theorem Turnover.toNat_generation (h : Turnover s t ks m) (hp : s.world.pool.WellFormed) {i : Nat}
    (hleft : (s.world.pool.slotAt i).generation.toNat + 1 < UInt32.size) :
    (s.world.pool.slotAt i).generation.toNat ≤ (t.world.pool.slotAt i).generation.toNat ∧
      (t.world.pool.slotAt i).generation.toNat ≤
        (s.world.pool.slotAt i).generation.toNat + 1 := by
  rw [h.generation_eq hp i, UInt32.toNat_add]
  split
  · have hone : (s.world.pool.slotAt i).generation.toNat + (1 : UInt32).toNat < 2 ^ 32 := hleft
    rw [Nat.mod_eq_of_lt hone]
    exact ⟨Nat.le_succ _, le_refl _⟩
  · rw [UInt32.toNat_zero, Nat.add_zero, Nat.mod_eq_of_lt (UInt32.toNat_lt _)]
    exact ⟨le_refl _, Nat.le_succ _⟩

/-- Generations do not start over in ticks that are fewer than are left of them. -/
theorem Ready.generation_le_afterTicks (h : s.Ready) {dts : List Double} {i : Nat}
    (hleft : (s.world.pool.slotAt i).generation.toNat + dts.length < UInt32.size) :
    (s.world.pool.slotAt i).generation ≤ ((s.afterTicks dts).world.pool.slotAt i).generation := by
  induction dts generalizing s with
  | nil => exact UInt32.le_refl _
  | cons dt dts ih =>
    obtain ⟨ks, m, hturn, -⟩ := h.exists_turnover dt
    rw [List.length_cons] at hleft
    obtain ⟨hle, hnext⟩ := hturn.toNat_generation h.staged.housed.pool (i := i) (by omega)
    have hrest := ih (h.after_advance dt) (by omega)
    rw [UInt32.le_iff_toNat_le] at hrest ⊢
    exact hle.trans hrest

/-- From a scene whose handles were kept different, who has the world as it was after a tick
in the window learns all that came after it, as long as the ticks are fewer than the
generations that are left to every slot. -/
theorem Ready.payload?_afterTicks (h : s.Ready) (hs : ReachableBy Operation.KeepsNames s.world)
    {dts : List Double} {a : Nat} (hfirst : s.tick ≤ a) (hlast : a ≤ s.tick + dts.length)
    (hwindow : s.tick + dts.length ≤ a + s.rules.historyTicks)
    (hleft : ∀ i, (s.world.pool.slotAt i).generation.toNat + dts.length < UInt32.size)
    (e : Handle) (t : TypeTag) :
    (s.afterTicks dts).world.payload? e t =
      (s.afterTicks dts).world.replica? (s.afterTicks (dts.take (a - s.tick))).world a e t := by
  rw [← (tick_afterTicks s dts).1] at hlast hwindow
  exact payload?_afterTicks_of_keepsNames hs hfirst hlast hwindow
    (fun i => h.generation_le_afterTicks (hleft i)) e t

/-! ### Slots -/

/-- **Ticks get by with the slots they have.** In a scene that is ready, after a first
tick and any others, of any lengths, there are as many slots as after the first. The
next tick lets some particles go and then others come, no more than went, and each
takes a slot that was free by then; so no more entities are alive than before. -/
theorem Ready.recycles (h : s.Ready) (dt : Double) (dts : List Double) (dt' : Double) :
    let t := s.afterTicks (dt :: dts)
    let t' := after (Simulation.advance dt') t
    t.world.pool.next = (after (Simulation.advance dt) s).world.pool.next ∧
      t'.world.pool.next = t.world.pool.next ∧
      t'.world.pool.liveCount ≤ t.world.pool.liveCount ∧
      ∃ ks m, m ≤ ks.length ∧ Turnover t t' ks m ∧
        ∀ e, t'.world.isAlive e →
          t.world.isAlive e ∧ e ∉ ks ∨ e.index ∈ (t.world.pool.serve (ks.map .kill)).free := by
  intro t t'
  obtain ⟨-, -, -, -, -, hsated⟩ := h.exists_turnover dt
  obtain ⟨hready, hsated', hsize⟩ := (h.after_advance dt).afterTicks_of_sated hsated dts
  obtain ⟨hsize', hlive, hturn⟩ := hready.advance_of_sated hsated' dt'
  exact ⟨congrArg UInt32.ofNat hsize, congrArg UInt32.ofNat hsize', hlive, hturn⟩

/-- Two particles with a free slot between them, in a scene that takes the slot first that
was free first; one particle is missing. -/
def gapped : Simulation Empty where
  rules := { particles := 3 }
  world := run { settings := { reuse := .oldestFirst }, pool := { reuse := .oldestFirst } }
    [.register .particle, .register .star, .register .transform, .spawn, .spawn, .spawn,
      .add .particle ⟨0, 0⟩ {}, .add .particle ⟨2, 0⟩ (Particle.ofLifetime .half), .kill ⟨1, 0⟩]

theorem ready_gapped : gapped.Ready := by
  have hreach : gapped.world.Reachable :=
    ReachableBy.run (.start (s := { reuse := .oldestFirst }) rfl)
      ⟨trivial, trivial, trivial, trivial, trivial, trivial, trivial, trivial, trivial, trivial⟩
  exact .of_staged ⟨hreach.wellFormed.housed, by decide +kernel, by decide +kernel,
    by decide +kernel⟩ hreach.exposed

/-- Ticks of a second, of a length that is not a number, and of a quarter. -/
theorem recycles_gapped :
    let t := gapped.afterTicks [⟨0x3ff0000000000000⟩, ⟨0x7ff8000000000000⟩]
    let t' := after (Simulation.advance ⟨0x3fd0000000000000⟩) t
    t'.world.pool.next = (after (Simulation.advance ⟨0x3ff0000000000000⟩) gapped).world.pool.next ∧
      t'.world.pool.liveCount ≤ t.world.pool.liveCount ∧
      ∃ ks m, m ≤ ks.length ∧ Turnover t t' ks m := by
  obtain ⟨hfirst, hnext, hlive, ks, m, hm, hturn, -⟩ :=
    ready_gapped.recycles ⟨0x3ff0000000000000⟩ [⟨0x7ff8000000000000⟩] ⟨0x3fd0000000000000⟩
  exact ⟨hnext.trans hfirst, hlive, ks, m, hm, hturn⟩

end Simulation
end EntityWorld
