/-
# Particles: entities with a limited lifetime

Key definitions: `Particle`, `Particle.age`, `Particle.isExpired`,
`Particle.progress`, `Particle.codec`.
-/
import EntityWorld.Payload

namespace EntityWorld

structure Particle where
  /-- The seconds left. -/
  lifetime : Single := 0
  /-- The seconds it had at the start. -/
  maxLifetime : Single := 0
deriving DecidableEq, Inhabited

namespace Particle

def ofLifetime (seconds : Single) : Particle := ⟨seconds, seconds⟩

/-- The particle after some time. The time left does not fall below zero. -/
def age (dt : Single) (p : Particle) : Particle :=
  { p with lifetime := (p.lifetime - dt).positivePart }

def isExpired (p : Particle) : Bool := p.lifetime.le 0

/-- The share of its lifetime that a particle has behind it. -/
def progress (p : Particle) : Single :=
  if p.maxLifetime.le 0 then 1 else (1 - p.lifetime / p.maxLifetime).clampUnit

/-- The numbers of a particle in the order in which they travel. -/
def fields (p : Particle) : Vector Single 2 := #v[p.lifetime, p.maxLifetime]

def ofFields (v : Vector Single 2) : Particle := ⟨v[0], v[1]⟩

def codec : Codec Particle := .ofFields 2 fields ofFields

end Particle
end EntityWorld
