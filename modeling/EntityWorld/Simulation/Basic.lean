/-
# The simulation: a world in motion

A simulation advances a world in ticks of some length. Each tick is one version
of the world: particles age and end, new ones take their place, the stars of the
backdrop move, and the journal drops what is older than the history to keep.

Key definitions: `Simulation`, `Simulation.advance`, `Simulation.spawnStars`,
`Simulation.deltaFor`.
-/
import EntityWorld.World.Replication

namespace EntityWorld

namespace Simulation

/-- What a simulation keeps to. -/
structure Rules where
  /-- Ticks per second, of a run. -/
  tickRate : Double := ⟨0x404e000000000000⟩
  /-- The tick that a run stops at; zero for none. -/
  maxTicks : Nat := 0
  /-- The number of particles to keep up. -/
  particles : Nat := 32
  /-- The shortest lifetime of a new particle, in seconds. -/
  particleLifetime : Single := .half
  /-- The speed of the foreground. -/
  scrollSpeed : Single := .ofNat 120
  /-- The width of the scene, at which stars start over. -/
  width : Single := .ofNat 800
  /-- The number of ticks whose changes are kept. -/
  historyTicks : Nat := 30

end Simulation

structure Simulation (κ : Type) [Family κ] where
  rules : Simulation.Rules
  world : World (Stocked κ)
  /-- The number of the last tick. -/
  tick : Nat := 0
  /-- The number of particles that have ended. -/
  expired : Nat := 0

variable {κ : Type} [Family κ] [DecidableEq κ]

namespace Simulation

/-- An operation on a simulation that may fail. -/
abbrev Action (κ : Type) [Family κ] := EStateM WorldError (Simulation κ)

/-- An operation on the world of a simulation. -/
def inWorld {α : Type} (act : World.Action (Stocked κ) α) : Action κ α := fun s =>
  match act s.world with
  | .ok a w => .ok a { s with world := w }
  | .error cause w => .error cause { s with world := w }

/-! ### Particles -/

/-- Records the particle in a slot as written. -/
def touchParticle (i : Nat) : World.Action (Stocked κ) Unit := fun w =>
  match World.markDirty .particle (w.pool.current (UInt32.ofNat i)) w with
  | .ok _ w => .ok () w
  | .error cause w => .error cause w

/-- Ends the entity in a slot. -/
def killAt (i : Nat) : World.Action (Stocked κ) Unit := fun w =>
  World.kill (w.pool.current (UInt32.ofNat i)) w

/-- Ages every particle. Those left alive are recorded as written, then the
entities of the others end. -/
def ageParticles (dt : Single) : Action κ Unit := do
  inWorld (World.modifyColumn .particle (·.map (Particle.age dt)))
  let aged ← inWorld (World.column .particle)
  let (dead, living) := aged.present.partition fun (_, p) => Particle.isExpired p
  living.forM fun (i, _) => inWorld (touchParticle i)
  dead.forM fun (i, _) => inWorld (killAt i)
  modify fun s => { s with expired := s.expired + dead.length }

/-- The `n`th particle of a tick, at the centre of the scene. Lifetimes are
staggered in threes. -/
def spawnParticle (rules : Rules) (n : Nat) : World.Action (Stocked κ) Unit := do
  let e ← World.spawn
  let lifetime := rules.particleLifetime * (1 + Single.ofNat (n % 3) * .half)
  let _ ← World.emplace (Stocked.particle : Stocked κ) e fun _ => some (Particle.ofLifetime lifetime)
  World.add .transform e
    (Transform.ofPosition ⟨rules.width / .ofNat 2, .ofNat 300, 1⟩)

/-- Spawns particles up to the number to keep up. -/
def refillParticles : Action κ Unit := do
  let column ← inWorld (World.column .particle)
  let rules := (← get).rules
  (List.range (rules.particles - column.count)).forM fun n => inWorld (spawnParticle rules n)

/-! ### Stars -/

/-- Moves the entity in a slot to the left. Leaving the scene it starts over. -/
def scroll (width dt : Single) (i : Nat) (speed : Single) : World.Action (Stocked κ) Unit := do
  let e := (← get).pool.current (UInt32.ofNat i)
  let move (t : Transform) : Transform :=
    { t with position := { t.position with x := (t.position.x - speed * dt).remEuclid width } }
  let old ← World.edit (Stocked.transform : Stocked κ) e move
  if old.isSome then
    let _ ← World.markDirty (Stocked.transform : Stocked κ) e

/-- Moves every star, each at its own speed. -/
def scrollStars (dt : Single) : Action κ Unit := do
  let rules := (← get).rules
  let column ← inWorld (World.column .star)
  let speeds := column.present.map fun (i, star) => (i, Star.scrollSpeed star rules.scrollSpeed)
  speeds.forM fun (i, speed) => inWorld (scroll rules.width dt i speed)

/-- The `i`th of `count` stars, which are spread evenly over the width. -/
def spawnStar (rules : Rules) (count i : Nat) : World.Action (Stocked κ) Handle := do
  let e ← World.spawn
  let depth := Single.ofNat (i % 4 + 1) / .ofNat 4
  let x := rules.width * .ofNat i / .ofNat (max count 1)
  World.add .star e (Star.mk depth)
  World.add .transform e (Transform.ofPosition ⟨x, .ofNat (i * 37 % 600), -depth⟩)
  return e

/-- New stars. It stops at the first that fails, keeping those before. -/
def spawnStars (count : Nat) : Action κ (List Handle) := do
  let rules := (← get).rules
  (List.range count).mapM fun i => inWorld (spawnStar rules count i)

/-! ### Ticks -/

/-- Drops what the journal no longer has to keep. -/
def pruneHistory : Action κ Unit :=
  modify fun s =>
    if s.rules.historyTicks ≤ s.tick then
      { s with world := s.world.prune (s.tick - s.rules.historyTicks) }
    else s

/-- Begins the next tick. Its changes are stamped with its number. -/
def beginTick : Action κ Unit :=
  modify fun s => { s with tick := s.tick + 1, world := s.world.setVersion (s.tick + 1) }

/-- One tick of the given length in seconds. It stops where something fails. -/
def advance (dt : Double) : Action κ Unit := do
  beginTick
  ageParticles dt.toSingle
  refillParticles
  scrollStars dt.toSingle
  pruneHistory

/-- Some ticks of one length. It stops at the first that fails. -/
def advanceMany : Nat → Double → Action κ Unit
  | 0, _ => pure ()
  | n + 1, dt => do
    advance dt
    advanceMany n dt

/-- What a peer that has seen everything up to a tick still needs. -/
def deltaFor (s : Simulation κ) (acknowledged : Nat) : Snapshot := s.world.captureSince acknowledged

end Simulation
end EntityWorld
