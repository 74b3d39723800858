/-
# Screen transforms: where an element is on the screen

Position, size, anchor and rotation of an element. The anchor says which point
of the element, as a fraction of its size, the position is of.

Key definitions: `UITransform`, `UITransform.topLeft`, `UITransform.contains`,
`UITransform.codec`.
-/
import EntityWorld.Payload
import EntityWorld.Vector

namespace EntityWorld

structure UITransform where
  /-- The third coordinate orders elements that overlap. -/
  position : Vec3 := {}
  size : Vec2 := {}
  anchor : Vec2 := {}
  /-- The angle in radians. -/
  rotation : Single := 0
deriving DecidableEq, Inhabited

namespace UITransform

def withAnchor (t : UITransform) (a : Vec2) : UITransform := { t with anchor := a }

def topLeft (t : UITransform) : Vec2 := t.position.xy - t.anchor * t.size

/-- Whether a point is in the element, rotation aside: the upper and left edges
belong to it, the others do not. -/
def contains (t : UITransform) (p : Vec2) : Bool :=
  let low := t.topLeft
  let high := low + t.size
  (low.x.le p.x && low.y.le p.y) && (p.x.lt high.x && p.y.lt high.y)

/-- The numbers of a screen transform in the order in which they travel. -/
def fields (t : UITransform) : Vector Single 8 :=
  #v[t.position.x, t.position.y, t.position.z, t.size.x, t.size.y, t.anchor.x, t.anchor.y,
    t.rotation]

def ofFields (v : Vector Single 8) : UITransform where
  position := ⟨v[0], v[1], v[2]⟩
  size := ⟨v[3], v[4]⟩
  anchor := ⟨v[5], v[6]⟩
  rotation := v[7]

def codec : Codec UITransform := .ofFields 8 fields ofFields

end UITransform
end EntityWorld
