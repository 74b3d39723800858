/-
# What a tick does to a world

A tick is a run of operations on the world of a simulation, stamped with the
number of the tick (`Simulation.exists_run_stir`), and then drops what is older
than the history to keep. What each action of a tick preserves, the tick
preserves, also if it stops where something fails (`Preserves`).

Key definitions: `Preserves`, `Simulation.Within`, `Simulation.stir`,
`Simulation.afterTicks`, `Operation.Stirs`.
Key theorems: `Simulation.within_stir`, `Simulation.within_advance`,
`Simulation.exists_run_stir`.
-/
import EntityWorld.Proofs.Follow
import EntityWorld.Simulation.Basic
import Mathlib.Tactic

namespace EntityWorld

/-! ### What actions preserve -/

/-- What holds before an action holds after it, whether it succeeds or fails. -/
def Preserves {ε σ α : Type} (I : σ → Prop) (act : EStateM ε σ α) : Prop :=
  ∀ s, I s → I (after act s)

namespace Preserves

variable {ε σ α β : Type} {I : σ → Prop} {act : EStateM ε σ α}

theorem of_eq (h : ∀ s, after act s = s) : Preserves I act := by
  intro s hs
  rw [h]
  exact hs

theorem pure (a : α) : Preserves I (Pure.pure a : EStateM ε σ α) := of_eq fun _ => rfl

theorem get : Preserves I (MonadState.get : EStateM ε σ σ) := of_eq fun _ => rfl

theorem bind {next : α → EStateM ε σ β} (ha : Preserves I act) (hn : ∀ a, Preserves I (next a)) :
    Preserves I (act >>= next) := by
  intro s hs
  have hfirst := ha s hs
  cases h : act s with
  | ok a t =>
    rw [after_of_ok h] at hfirst
    rw [after_bind_of_ok h]
    exact hn a t hfirst
  | error c t =>
    rw [after_of_error h] at hfirst
    rw [after_bind_of_error h]
    exact hfirst

theorem forM {xs : List α} {f : α → EStateM ε σ PUnit} (hf : ∀ x ∈ xs, Preserves I (f x)) :
    Preserves I (xs.forM f) := by
  induction xs with
  | nil => exact pure _
  | cons x xs ih =>
    exact bind (hf x List.mem_cons_self) fun _ => ih fun y hy => hf y (List.mem_cons_of_mem x hy)

end Preserves

variable {κ : Type} [Family κ]

namespace Simulation

/-- The tick has a number, the rules are some rules, and the world satisfies `J`. -/
def Within (u : Nat) (R : Rules) (J : World (Stocked κ) → Prop) (s : Simulation κ) : Prop :=
  s.tick = u ∧ s.rules = R ∧ J s.world

variable {u : Nat} {R : Rules} {J : World (Stocked κ) → Prop} {α : Type}

theorem preserves_inWorld {act : World.Action (Stocked κ) α} (h : Preserves J act) :
    Preserves (Within u R J) (inWorld act) := by
  intro s hs
  have hworld := h s.world hs.2.2
  simp only [after, inWorld] at hworld ⊢
  cases ha : act s.world with
  | ok a w =>
    rw [ha] at hworld
    exact ⟨hs.1, hs.2.1, hworld⟩
  | error c w =>
    rw [ha] at hworld
    exact ⟨hs.1, hs.2.1, hworld⟩

theorem inWorld_of_ok {s : Simulation κ} {act : World.Action (Stocked κ) α} {a : α}
    {w : World (Stocked κ)} (h : act s.world = .ok a w) :
    inWorld act s = .ok a { s with world := w } := by
  simp only [inWorld, h]

theorem inWorld_of_error {s : Simulation κ} {act : World.Action (Stocked κ) α} {c : WorldError}
    {w : World (Stocked κ)} (h : act s.world = .error c w) :
    inWorld act s = .error c { s with world := w } := by
  simp only [inWorld, h]

/-- What is done for one item after the other gets to the end of the list. -/
theorem exists_forM {s : Simulation κ} {Q : List α → World (Stocked κ) → Prop}
    {f : α → World.Action (Stocked κ) Unit}
    (hf : ∀ x xs w, Q (x :: xs) w → ∃ w', f x w = .ok () w' ∧ Q xs w') (xs : List α)
    (h : Q xs s.world) :
    ∃ w, (xs.forM fun x => inWorld (f x)) s = .ok () { s with world := w } ∧ Q [] w := by
  induction xs generalizing s with
  | nil => exact ⟨s.world, rfl, h⟩
  | cons x xs ih =>
    obtain ⟨w, hw, hrest⟩ := hf x xs s.world h
    obtain ⟨w', hw', hdone⟩ := ih (s := { s with world := w }) hrest
    exact ⟨w', (bind_of_ok (inWorld_of_ok hw)).trans hw', hdone⟩

variable [DecidableEq κ]

theorem preserves_column (k : Stocked κ) : Preserves J (World.column k) := by
  refine .of_eq fun w => ?_
  unfold after World.column
  cases w.column? k <;> rfl

theorem inWorld_column {s : Simulation κ} {k : Stocked κ} {c : Column (Value k)}
    (hc : s.world.column? k = some c) : inWorld (World.column k) s = .ok c s := by
  simp only [inWorld, World.column, hc]

/-! ### The parts of a tick -/

theorem preserves_spawnParticle (hspawn : Preserves J World.spawn)
    (hemplace : ∀ e v, Preserves J (World.emplace (.particle : Stocked κ) e fun _ => some v))
    (hadd : ∀ e v, Preserves J (World.add (.transform : Stocked κ) e v)) (rules : Rules) (n : Nat) :
    Preserves J (spawnParticle rules n) :=
  .bind hspawn fun e => .bind (hemplace e _) fun _ => hadd e _

theorem preserves_refillParticles (hspawn : Preserves J World.spawn)
    (hemplace : ∀ e v, Preserves J (World.emplace (.particle : Stocked κ) e fun _ => some v))
    (hadd : ∀ e v, Preserves J (World.add (.transform : Stocked κ) e v)) :
    Preserves (Within u R J) refillParticles :=
  .bind (preserves_inWorld (preserves_column _)) fun _ => .bind .get fun _ =>
    .forM fun _ _ => preserves_inWorld (preserves_spawnParticle hspawn hemplace hadd _ _)

theorem preserves_scrollStars (hscroll : ∀ width dt i speed, Preserves J (scroll width dt i speed))
    (dt : Single) : Preserves (Within u R J) (scrollStars dt) :=
  .bind .get fun _ => .bind (preserves_inWorld (preserves_column _)) fun _ =>
    .forM fun _ _ => preserves_inWorld (hscroll _ _ _ _)

theorem preserves_ageParticles (dt : Single)
    (hedit : Preserves J (World.modifyColumn (.particle : Stocked κ) (·.map (Particle.age dt))))
    (htouch : ∀ i, Preserves J (touchParticle i)) (hkill : ∀ i, Preserves J (killAt i)) :
    Preserves (Within u R J) (ageParticles dt) :=
  .bind (preserves_inWorld hedit) fun _ => .bind (preserves_inWorld (preserves_column _)) fun _ =>
    .bind (.forM fun _ _ => preserves_inWorld (htouch _)) fun _ =>
      .bind (.forM fun _ _ => preserves_inWorld (hkill _)) fun _ => fun _ hs => hs

omit [DecidableEq κ] in
/-- Pruning does not fail. -/
theorem pruneHistory_eq (s : Simulation κ) : pruneHistory s =
    .ok () (if s.rules.historyTicks ≤ s.tick then
      { s with world := s.world.prune (s.tick - s.rules.historyTicks) } else s) := rfl

/-- What happens in a tick, up to the pruning of the journal. -/
def stir (dt : Double) : Action κ Unit := do
  beginTick
  ageParticles dt.toSingle
  refillParticles
  scrollStars dt.toSingle

/-- A simulation whose next tick has begun. -/
def begun (s : Simulation κ) : Simulation κ :=
  { s with tick := s.tick + 1, world := s.world.setVersion (s.tick + 1) }

/-- What each part of a tick keeps, the tick keeps from its beginning to the pruning. -/
theorem within_stir {s : Simulation κ} (hJ : J (s.world.setVersion (s.tick + 1))) (dt : Double)
    (hage : Preserves (Within (s.tick + 1) s.rules J) (ageParticles dt.toSingle))
    (hrefill : Preserves (Within (s.tick + 1) s.rules J) refillParticles)
    (hscroll : Preserves (Within (s.tick + 1) s.rules J) (scrollStars dt.toSingle)) :
    Within (s.tick + 1) s.rules J (after (stir dt) s) := by
  have hrest := Preserves.bind hage fun _ => .bind hrefill fun _ => hscroll
  exact hrest s.begun ⟨rfl, rfl, hJ⟩

theorem advance_eq (dt : Double) :
    (advance dt : Action κ Unit) = stir dt >>= fun _ => pruneHistory := by
  simp only [advance, stir, bind_assoc]

/-- A tick that gets to its end prunes the journal there. -/
theorem after_advance (dt : Double) (s : Simulation κ) :
    after (advance dt) s = after (stir dt) s ∨
      after (advance dt) s = after pruneHistory (after (stir dt) s) := by
  rw [advance_eq]
  cases h : stir dt s with
  | ok a t => exact Or.inr (by rw [after_bind_of_ok h, after_of_ok h])
  | error c t => exact Or.inl (by rw [after_bind_of_error h, after_of_error h])

/-- What a tick has before the pruning it has in the end, if the pruning keeps it. -/
theorem within_advance {s : Simulation κ} {dt : Double}
    (hstir : Within (s.tick + 1) s.rules J (after (stir dt) s))
    (hprune : s.rules.historyTicks ≤ s.tick + 1 →
      ∀ w, J w → J (w.prune (s.tick + 1 - s.rules.historyTicks))) :
    Within (s.tick + 1) s.rules J (after (advance dt) s) := by
  rcases after_advance dt s with h | h
  · rw [h]
    exact hstir
  · rw [h]
    generalize after (stir dt) s = t at hstir
    obtain ⟨htick, hrules, hworld⟩ := hstir
    rw [after_of_ok (pruneHistory_eq t)]
    split
    · next hlong =>
      refine ⟨htick, hrules, ?_⟩
      rw [htick, hrules] at hlong ⊢
      exact hprune hlong _ hworld
    · exact ⟨htick, hrules, hworld⟩

/-- The simulation after some ticks, which go on where one fails. -/
def afterTicks (s : Simulation κ) (dts : List Double) : Simulation κ :=
  dts.foldl (fun s dt => after (advance dt) s) s

end Simulation

/-! ### A tick is a run of operations -/

/-- The operations that a tick is made of. -/
def Operation.Stirs : Operation κ → Prop
  | .spawn | .kill _ | .add _ _ _ | .emplace _ _ _ | .markDirty _ _ | .edit _ _ _
  | .editAll _ _ => True
  | _ => False

namespace Simulation

variable {u : Nat} {R : Rules} {J : World (Stocked κ) → Prop} [DecidableEq κ]

section Closed

variable (hJ : ∀ op : Operation (Stocked κ), op.Stirs → ∀ w, J w → J (op.apply w))

include hJ

theorem preserves_of_apply {α : Type} {act : World.Action (Stocked κ) α}
    (h : ∀ w, ∃ op : Operation (Stocked κ), op.Stirs ∧ after act w = op.apply w) :
    Preserves J act := by
  intro w hw
  obtain ⟨op, hop, heq⟩ := h w
  rw [heq]
  exact hJ op hop w hw

theorem preserves_scroll (width dt : Single) (i : Nat) (speed : Single) :
    Preserves J (scroll width dt i speed) := by
  refine .bind .get fun _ => .bind ?_ fun old => ?_
  · exact preserves_of_apply hJ fun _ => ⟨.edit _ _ _, trivial, rfl⟩
  · split
    · refine .bind ?_ fun _ => .pure _
      exact preserves_of_apply hJ fun _ => ⟨.markDirty _ _, trivial, rfl⟩
    · exact .pure _

theorem within_stir_of_closed {s : Simulation κ} (hs : J (s.world.setVersion (s.tick + 1)))
    (dt : Double) : Within (s.tick + 1) s.rules J (after (stir dt) s) := by
  refine within_stir hs dt (preserves_ageParticles _ ?_ (fun i => ?_) fun i => ?_)
    (preserves_refillParticles ?_ (fun e v => ?_) fun e v => ?_)
    (preserves_scrollStars (preserves_scroll hJ) _)
  · exact preserves_of_apply hJ fun _ => ⟨.editAll _ _, trivial, rfl⟩
  · refine preserves_of_apply hJ fun w =>
      ⟨.markDirty .particle (w.pool.current (.ofNat i)), trivial, ?_⟩
    simp only [touchParticle, Operation.apply, after]
    cases World.markDirty (.particle : Stocked κ) (w.pool.current (.ofNat i)) w <;> rfl
  · exact preserves_of_apply hJ fun w => ⟨.kill (w.pool.current (.ofNat i)), trivial, rfl⟩
  · exact preserves_of_apply hJ fun _ => ⟨.spawn, trivial, rfl⟩
  · exact preserves_of_apply hJ fun _ => ⟨.emplace _ _ _, trivial, rfl⟩
  · exact preserves_of_apply hJ fun _ => ⟨.add _ _ _, trivial, rfl⟩

end Closed

/-- A tick, up to the pruning, is a run of operations at its version. -/
theorem exists_run_stir (dt : Double) (s : Simulation κ) :
    (after (stir dt) s).tick = s.tick + 1 ∧ (after (stir dt) s).rules = s.rules ∧
      ∃ ops : List (Operation (Stocked κ)), (∀ op ∈ ops, op.Stirs) ∧
        (after (stir dt) s).world = (s.world.setVersion (s.tick + 1)).run ops := by
  refine within_stir_of_closed (J := fun w => ∃ ops : List (Operation (Stocked κ)),
    (∀ op ∈ ops, op.Stirs) ∧ w = (s.world.setVersion (s.tick + 1)).run ops) ?_ ⟨[], by simp, rfl⟩ dt
  rintro op hop w ⟨ops, hops, rfl⟩
  refine ⟨ops ++ [op], fun x hx => ?_, ?_⟩
  · rcases List.mem_append.mp hx with hx | hx
    · exact hops x hx
    · rw [List.mem_singleton.mp hx]
      exact hop
  · simp only [World.run, List.foldl_append]
    rfl

end Simulation
end EntityWorld
