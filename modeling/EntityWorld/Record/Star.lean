/-
# Stars: the backdrop

A star moves with the foreground, the slower the farther away it is.

Key definitions: `Star`, `Star.scrollSpeed`, `Star.codec`.
-/
import EntityWorld.Payload

namespace EntityWorld

structure Star where
  /-- Zero is as far away as can be, one moves with the foreground. -/
  depth : Single := 0
deriving DecidableEq, Inhabited

namespace Star

/-- The speed of a star when the foreground has the given one. -/
def scrollSpeed (s : Star) (foreground : Single) : Single := foreground * s.depth.clampUnit

/-- The numbers of a star in the order in which they travel. -/
def fields (s : Star) : Vector Single 1 := #v[s.depth]

def ofFields (v : Vector Single 1) : Star := ⟨v[0]⟩

def codec : Codec Star := .ofFields 1 fields ofFields

end Star
end EntityWorld
