/-
# Records as MessagePack

A record is written as the list of its fields in order of declaration, a vector
as the list of its coordinates.

Key definitions: `Transform.toPack`, `Transform.ofItem?` and the like for the
other records and for `Handle`.
-/
import EntityWorld.Pack.Fields
import EntityWorld.Pack.Writer
import EntityWorld.Handle
import EntityWorld.Record.Particle
import EntityWorld.Record.Star
import EntityWorld.Record.Transform
import EntityWorld.Record.UITransform

namespace EntityWorld

open Pack (Item)

/-- What `ofItem?` makes of the value at the front of some bytes. -/
def Pack.decode? {α : Type} (ofItem? : Item → Option α) (bytes : List UInt8) : Option α :=
  (readItem depthLimit bytes).bind fun (item, _) => ofItem? item

def Handle.toPack (e : Handle) : List UInt8 :=
  Pack.list [Pack.natural e.index.toNat, Pack.natural e.generation.toNat]

namespace Vec2

def toPack (v : Vec2) : List UInt8 := Pack.list [Pack.single v.x, Pack.single v.y]

def ofItem? (i : Item) : Option Vec2 := do
  match ← i.tuple? 2 with
  | [x, y] => return ⟨← x.toSingle?, ← y.toSingle?⟩
  | _ => none

end Vec2

namespace Vec3

def toPack (v : Vec3) : List UInt8 :=
  Pack.list [Pack.single v.x, Pack.single v.y, Pack.single v.z]

def ofItem? (i : Item) : Option Vec3 := do
  match ← i.tuple? 3 with
  | [x, y, z] => return ⟨← x.toSingle?, ← y.toSingle?, ← z.toSingle?⟩
  | _ => none

end Vec3

namespace Transform

def toPack (t : Transform) : List UInt8 :=
  Pack.list [t.position.toPack, t.origin.toPack, t.rotation.toPack, t.scale.toPack]

def ofItem? (i : Item) : Option Transform := do
  match ← i.fields? ["position", "origin", "rotation", "scale"] with
  | [position, origin, rotation, scale] =>
    return ⟨← Vec3.ofItem? position, ← Vec2.ofItem? origin, ← Vec3.ofItem? rotation,
      ← Vec3.ofItem? scale⟩
  | _ => none

end Transform

namespace UITransform

def toPack (t : UITransform) : List UInt8 :=
  Pack.list [t.position.toPack, t.size.toPack, t.anchor.toPack, Pack.single t.rotation]

def ofItem? (i : Item) : Option UITransform := do
  match ← i.fields? ["position", "size", "anchor", "rotation"] with
  | [position, size, anchor, rotation] =>
    return ⟨← Vec3.ofItem? position, ← Vec2.ofItem? size, ← Vec2.ofItem? anchor,
      ← rotation.toSingle?⟩
  | _ => none

end UITransform

namespace Particle

def toPack (p : Particle) : List UInt8 :=
  Pack.list [Pack.single p.lifetime, Pack.single p.maxLifetime]

def ofItem? (i : Item) : Option Particle := do
  match ← i.fields? ["lifetime", "max_lifetime"] with
  | [lifetime, maxLifetime] => return ⟨← lifetime.toSingle?, ← maxLifetime.toSingle?⟩
  | _ => none

end Particle

namespace Star

def toPack (s : Star) : List UInt8 := Pack.list [Pack.single s.depth]

def ofItem? (i : Item) : Option Star := do
  match ← i.fields? ["depth"] with
  | [depth] => return ⟨← depth.toSingle?⟩
  | _ => none

end Star
end EntityWorld
