/-
# Transforms: where an object is in the world

Position, pivot, rotation and scale, and the matrix that they make together:
the pivot is moved to the centre, the object scaled and rotated there, and then
moved to its position.

Key definitions: `Transform`, `Transform.rotationQuaternion`,
`Transform.toMatrix`, `Transform.codec`.
-/
import EntityWorld.Payload
import EntityWorld.Vector

namespace EntityWorld

structure Transform where
  position : Vec3 := {}
  /-- The pivot, in the object's own coordinates. -/
  origin : Vec2 := {}
  /-- Angles in radians. -/
  rotation : Vec3 := {}
  scale : Vec3 := ⟨1, 1, 1⟩
deriving DecidableEq, Inhabited

namespace Transform

/-- The transform that leaves everything in place. -/
def identity : Transform := {}

def ofPosition (p : Vec3) : Transform := { position := p }

def withOrigin (t : Transform) (o : Vec2) : Transform := { t with origin := o }

def moved (t : Transform) (v : Vec3) : Transform := { t with position := t.position + v }

def scaled (t : Transform) (f : Single) : Transform := { t with scale := t.scale.scale f }

def rotationQuaternion (t : Transform) : Quaternion := .ofAngles t.rotation

def toMatrix (t : Transform) : Matrix :=
  .offset t.position * .scaleRotation t.scale t.rotationQuaternion
    * .offset ⟨-t.origin.x, -t.origin.y, -0⟩

/-- Numerical equality of all fields. -/
def same (a b : Transform) : Bool :=
  a.position.same b.position && (a.origin.x.same b.origin.x && a.origin.y.same b.origin.y)
    && a.rotation.same b.rotation && a.scale.same b.scale

/-- The numbers of a transform in the order in which they travel. -/
def fields (t : Transform) : Vector Single 11 :=
  #v[t.position.x, t.position.y, t.position.z, t.origin.x, t.origin.y,
    t.rotation.x, t.rotation.y, t.rotation.z, t.scale.x, t.scale.y, t.scale.z]

def ofFields (v : Vector Single 11) : Transform where
  position := ⟨v[0], v[1], v[2]⟩
  origin := ⟨v[3], v[4]⟩
  rotation := ⟨v[5], v[6], v[7]⟩
  scale := ⟨v[8], v[9], v[10]⟩

def codec : Codec Transform := .ofFields 11 fields ofFields

end Transform
end EntityWorld
