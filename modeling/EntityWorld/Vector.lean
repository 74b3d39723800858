/-
# Vectors, quaternions and matrices

The arithmetic that placing an object needs. Each formula fixes the order of
its operations, because every one of them rounds.

Key definitions: `Vec2`, `Vec3`, `Quaternion.ofAngles`, `Quaternion.columns`,
`Matrix.mul`.
-/
import EntityWorld.Single

namespace EntityWorld

structure Vec2 where
  x : Single := 0
  y : Single := 0
deriving DecidableEq, Inhabited

structure Vec3 where
  x : Single := 0
  y : Single := 0
  z : Single := 0
deriving DecidableEq, Inhabited

structure Vec4 where
  x : Single := 0
  y : Single := 0
  z : Single := 0
  w : Single := 0
deriving DecidableEq, Inhabited

namespace Vec2

instance : Add Vec2 := ⟨fun a b => ⟨a.x + b.x, a.y + b.y⟩⟩
instance : Sub Vec2 := ⟨fun a b => ⟨a.x - b.x, a.y - b.y⟩⟩
instance : Mul Vec2 := ⟨fun a b => ⟨a.x * b.x, a.y * b.y⟩⟩

end Vec2

namespace Vec3

instance : Add Vec3 := ⟨fun a b => ⟨a.x + b.x, a.y + b.y, a.z + b.z⟩⟩

def scale (v : Vec3) (f : Single) : Vec3 := ⟨v.x * f, v.y * f, v.z * f⟩

/-- The first two coordinates. -/
def xy (v : Vec3) : Vec2 := ⟨v.x, v.y⟩

/-- Numerical equality of all coordinates. -/
def same (a b : Vec3) : Bool := a.x.same b.x && a.y.same b.y && a.z.same b.z

end Vec3

namespace Vec4

instance : Add Vec4 := ⟨fun a b => ⟨a.x + b.x, a.y + b.y, a.z + b.z, a.w + b.w⟩⟩

def scale (v : Vec4) (f : Single) : Vec4 := ⟨v.x * f, v.y * f, v.z * f, v.w * f⟩

end Vec4

/-- A rotation in space. -/
structure Quaternion where
  x : Single
  y : Single
  z : Single
  w : Single
deriving DecidableEq, Inhabited

/-- Four columns. -/
structure Matrix where
  x : Vec4
  y : Vec4
  z : Vec4
  w : Vec4
deriving DecidableEq, Inhabited

namespace Quaternion

/-- The rotation about the first axis, then the second, then the third, by the
angles given in radians. -/
def ofAngles (a : Vec3) : Quaternion :=
  let ti := a.x * .half
  let tj := -a.y * .half
  let th := a.z * .half
  let (si, ci) := (ti.sin, ti.cos)
  let (sj, cj) := (tj.sin, tj.cos)
  let (sh, ch) := (th.sin, th.cos)
  let cc := ci * ch
  let cs := ci * sh
  let sc := si * ch
  let ss := si * sh
  { x := cj * sc - sj * cs
    y := (cj * ss + sj * cc) * -1
    z := cj * cs - sj * sc
    w := cj * cc + sj * ss }

/-- The images of the three axes. -/
def columns (q : Quaternion) : Vec4 × Vec4 × Vec4 :=
  let x2 := q.x + q.x
  let y2 := q.y + q.y
  let z2 := q.z + q.z
  let xx := q.x * x2
  let xy := q.x * y2
  let xz := q.x * z2
  let yy := q.y * y2
  let yz := q.y * z2
  let zz := q.z * z2
  let wx := q.w * x2
  let wy := q.w * y2
  let wz := q.w * z2
  (⟨1 - (yy + zz), xy + wz, xz - wy, 0⟩,
    ⟨xy - wz, 1 - (xx + zz), yz + wx, 0⟩,
    ⟨xz + wy, yz - wx, 1 - (xx + yy), 0⟩)

end Quaternion

namespace Matrix

/-- The matrix that moves by a vector. -/
def offset (v : Vec3) : Matrix :=
  { x := ⟨1, 0, 0, 0⟩, y := ⟨0, 1, 0, 0⟩, z := ⟨0, 0, 1, 0⟩, w := ⟨v.x, v.y, v.z, 1⟩ }

/-- The matrix that scales along the axes and then rotates. -/
def scaleRotation (scale : Vec3) (q : Quaternion) : Matrix :=
  let (x, y, z) := q.columns
  { x := x.scale scale.x, y := y.scale scale.y, z := z.scale scale.z, w := ⟨0, 0, 0, 1⟩ }

/-- The image of a vector. -/
def apply (m : Matrix) (v : Vec4) : Vec4 :=
  m.x.scale v.x + m.y.scale v.y + m.z.scale v.z + m.w.scale v.w

instance : Mul Matrix := ⟨fun a b =>
  { x := a.apply b.x, y := a.apply b.y, z := a.apply b.z, w := a.apply b.w }⟩

end Matrix
end EntityWorld
