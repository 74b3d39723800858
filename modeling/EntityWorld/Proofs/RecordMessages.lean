/-
# Records are read as they were written

A record is written as the list of its fields, a vector as the list of its
coordinates, and each number as its bits (`Transform.toItem` and the like). A list
of parts is read if each part is, one level deeper, so the bytes of a record are
read as this value whatever follows them, and of a front part nothing is read
(`Pack.Lossless`).

A reader takes numbers in many forms and records in several shapes. Of these the
written one keeps all bits: a single-precision number is taken as it stands, be it
a NaN or a negative zero, where any other form would be rounded.

Key definitions: `Transform.toItem` and its like for the other records,
`Pack.Lossless`.
Key theorems: `Pack.reads_single`, `Transform.reads_toPack` and its like for the
other records, `Pack.lossless_stock`.
-/
import EntityWorld.Pack.Record
import EntityWorld.Proofs.PrefixCode
import Mathlib.Tactic

namespace EntityWorld

open Pack (Item Reads)

namespace Pack

/-! ### Numbers -/

/-- A number is read with all its bits. -/
theorem reads_single {depth : Nat} (x : Single) : Reads depth (single x) (.single x) := by
  have hlead : Lead.ofByte 0xca = .word 4 fun n => .single ⟨UInt32.ofNat n⟩ := rfl
  have hback : (Item.single ⟨UInt32.ofNat x.bits.toNat⟩) = .single x := by rw [UInt32.ofNat_toNat]
  have hread : Reads depth (single x) (.single ⟨UInt32.ofNat x.bits.toNat⟩) :=
    reads_word hlead (by norm_num; exact x.bits.toNat_lt)
  rwa [hback] at hread

/-! ### Forms without loss -/

section Lossless

variable {α : Type} {toPack : α → List UInt8} {toItem : α → Item} {ofItem? : Item → Option α}

/-- What a value is written as is read as that, and the value is read out of it, with
anything or nothing behind it. Of less than all of it nothing is read. -/
structure Lossless (toPack : α → List UInt8) (toItem : α → Item) (ofItem? : Item → Option α) :
    Prop where
  reads : ∀ v, Reads depthLimit (toPack v) (toItem v)
  decode? : ∀ v rest, decode? ofItem? (toPack v ++ rest) = some v
  of_strict_prefix : ∀ v front, front <+: toPack v → front ≠ toPack v → Pack.decode? ofItem? front = none

theorem lossless_of_reads (hreads : ∀ v, Reads depthLimit (toPack v) (toItem v))
    (hof : ∀ v, ofItem? (toItem v) = some v) : Lossless toPack toItem ofItem? where
  reads := hreads
  decode? v rest := by
    rw [Pack.decode?, hreads v rest]
    exact hof v
  of_strict_prefix v _ := decode?_of_strict_prefix (hreads v)

end Lossless
end Pack

/-! ### Vectors -/

namespace Vec2

def toItem (v : Vec2) : Item := .list [.single v.x, .single v.y]

theorem reads_toPack {depth : Nat} (v : Vec2) : Reads (depth + 1) v.toPack v.toItem :=
  Pack.reads_list (.cons (Pack.reads_single _) (.cons (Pack.reads_single _) .nil)) (by simp)

@[simp] theorem ofItem?_toItem (v : Vec2) : ofItem? v.toItem = some v := rfl

end Vec2

namespace Vec3

def toItem (v : Vec3) : Item := .list [.single v.x, .single v.y, .single v.z]

theorem reads_toPack {depth : Nat} (v : Vec3) : Reads (depth + 1) v.toPack v.toItem :=
  Pack.reads_list (.cons (Pack.reads_single _) (.cons (Pack.reads_single _)
    (.cons (Pack.reads_single _) .nil))) (by simp)

@[simp] theorem ofItem?_toItem (v : Vec3) : ofItem? v.toItem = some v := rfl

end Vec3

/-! ### Records -/

namespace Transform

/-- The value that a transform is written as. -/
def toItem (t : Transform) : Item :=
  .list [t.position.toItem, t.origin.toItem, t.rotation.toItem, t.scale.toItem]

theorem reads_toPack {depth : Nat} (t : Transform) : Reads (depth + 2) t.toPack t.toItem :=
  Pack.reads_list (.cons t.position.reads_toPack (.cons t.origin.reads_toPack
    (.cons t.rotation.reads_toPack (.cons t.scale.reads_toPack .nil)))) (by simp)

theorem ofItem?_toItem (t : Transform) : ofItem? t.toItem = some t := rfl

end Transform

namespace UITransform

/-- The value that a screen transform is written as. -/
def toItem (t : UITransform) : Item :=
  .list [t.position.toItem, t.size.toItem, t.anchor.toItem, .single t.rotation]

theorem reads_toPack {depth : Nat} (t : UITransform) : Reads (depth + 2) t.toPack t.toItem :=
  Pack.reads_list (.cons t.position.reads_toPack (.cons t.size.reads_toPack
    (.cons t.anchor.reads_toPack (.cons (Pack.reads_single _) .nil)))) (by simp)

theorem ofItem?_toItem (t : UITransform) : ofItem? t.toItem = some t := rfl

end UITransform

namespace Particle

/-- The value that a particle is written as. -/
def toItem (p : Particle) : Item := .list [.single p.lifetime, .single p.maxLifetime]

theorem reads_toPack {depth : Nat} (p : Particle) : Reads (depth + 1) p.toPack p.toItem :=
  Pack.reads_list (.cons (Pack.reads_single _) (.cons (Pack.reads_single _) .nil)) (by simp)

theorem ofItem?_toItem (p : Particle) : ofItem? p.toItem = some p := rfl

end Particle

namespace Star

/-- The value that a star is written as. -/
def toItem (s : Star) : Item := .list [.single s.depth]

theorem reads_toPack {depth : Nat} (s : Star) : Reads (depth + 1) s.toPack s.toItem :=
  Pack.reads_list (.cons (Pack.reads_single _) .nil) (by simp)

theorem ofItem?_toItem (s : Star) : ofItem? s.toItem = some s := rfl

end Star

namespace Pack

/-- **The messages of the stock records lose nothing.** Each of them, whatever its bits, is
written as the list of its fields in order, and is read from these bytes with anything behind
them. From a part of them at the front nothing is read. -/
theorem lossless_stock :
    Lossless Transform.toPack Transform.toItem Transform.ofItem? ∧
    Lossless UITransform.toPack UITransform.toItem UITransform.ofItem? ∧
    Lossless Particle.toPack Particle.toItem Particle.ofItem? ∧
    Lossless Star.toPack Star.toItem Star.ofItem? :=
  ⟨lossless_of_reads Transform.reads_toPack Transform.ofItem?_toItem,
    lossless_of_reads UITransform.reads_toPack UITransform.ofItem?_toItem,
    lossless_of_reads Particle.reads_toPack Particle.ofItem?_toItem,
    lossless_of_reads Star.reads_toPack Star.ofItem?_toItem⟩

end Pack
end EntityWorld
