/-
# Ticks count one each

No part of a tick but its beginning touches the number of the tick, and none
touches the rules. So a tick that succeeds raises the number by one, which is
why a run up to a last tick ends.

Key definition: `Simulation.KeepsTick`. Key theorem: `Simulation.tick_advance`.
-/
import EntityWorld.Simulation.Basic

namespace EntityWorld.Simulation

variable {κ : Type} [Family κ]

/-- Keeps the number of the tick and the rules wherever it succeeds. -/
def KeepsTick {α : Type} (act : Action κ α) : Prop :=
  ∀ s a s', act s = .ok a s' → s'.tick = s.tick ∧ s'.rules = s.rules

namespace KeepsTick

variable {α β : Type}

theorem pure (a : α) : KeepsTick (Pure.pure a : Action κ α) := by
  intro s _ s' h
  cases h; exact ⟨rfl, rfl⟩

theorem bind {act : Action κ α} {next : α → Action κ β} (ha : KeepsTick act)
    (hn : ∀ a, KeepsTick (next a)) : KeepsTick (act >>= next) := by
  intro s b s' h
  simp only [Bind.bind, EStateM.bind] at h
  split at h
  · next a t ht =>
    obtain ⟨h₁, h₂⟩ := ha s a t ht
    obtain ⟨h₃, h₄⟩ := hn a t b s' h
    exact ⟨h₃.trans h₁, h₄.trans h₂⟩
  · simp at h

theorem get : KeepsTick (MonadState.get : Action κ (Simulation κ)) := by
  intro s _ s' h
  cases h; exact ⟨rfl, rfl⟩

theorem change {f : Simulation κ → Simulation κ}
    (hf : ∀ s, (f s).tick = s.tick ∧ (f s).rules = s.rules) :
    KeepsTick (modify f : Action κ Unit) := by
  intro s _ s' h
  cases h; exact hf s

theorem inWorld (act : World.Action (Stocked κ) α) : KeepsTick (Simulation.inWorld act) := by
  intro s a s' h
  simp only [Simulation.inWorld] at h
  split at h
  · cases h; exact ⟨rfl, rfl⟩
  · simp at h

theorem forM {xs : List α} {f : α → Action κ PUnit} (hf : ∀ a, KeepsTick (f a)) :
    KeepsTick (xs.forM f) := by
  induction xs with
  | nil => exact pure _
  | cons x xs ih => exact bind (hf x) fun _ => ih

end KeepsTick

variable [DecidableEq κ]

theorem keepsTick_ageParticles (dt : Single) : KeepsTick (ageParticles dt : Action κ Unit) :=
  .bind (.inWorld _) fun _ => .bind (.inWorld _) fun _ =>
    .bind (.forM fun _ => .inWorld _) fun _ => .bind (.forM fun _ => .inWorld _) fun _ =>
      .change fun _ => ⟨rfl, rfl⟩

theorem keepsTick_refillParticles : KeepsTick (refillParticles : Action κ Unit) :=
  .bind (.inWorld _) fun _ => .bind .get fun _ => .forM fun _ => .inWorld _

theorem keepsTick_scrollStars (dt : Single) : KeepsTick (scrollStars dt : Action κ Unit) :=
  .bind .get fun _ => .bind (.inWorld _) fun _ => .forM fun _ => .inWorld _

omit [DecidableEq κ] in
theorem keepsTick_pruneHistory : KeepsTick (pruneHistory : Action κ Unit) :=
  .change fun s => by split <;> exact ⟨rfl, rfl⟩

/-- A tick that succeeds counts one and leaves the rules alone. -/
theorem tick_advance {dt : Double} {s s' : Simulation κ} (h : advance dt s = .ok () s') :
    s'.tick = s.tick + 1 ∧ s'.rules = s.rules :=
  KeepsTick.bind (keepsTick_ageParticles dt.toSingle)
    (fun _ => .bind keepsTick_refillParticles fun _ =>
      .bind (keepsTick_scrollStars dt.toSingle) fun _ => keepsTick_pruneHistory)
    { s with tick := s.tick + 1, world := s.world.setVersion (s.tick + 1) } () s' h

end EntityWorld.Simulation
