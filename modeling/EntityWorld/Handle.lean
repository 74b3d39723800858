/-
# Handles: names of entities

An entity is named by the slot it lives in and the generation of that slot at
the time the name was given out. A slot that is emptied moves on to its next
generation, so a name that outlived its entity differs from the name of the
slot's next occupant.

Handles are ordered by slot first and generation second. They travel as one
64-bit word (`toBits`, `ofBits`), as text (`display`) and as a JSON object
(`toJson`; the reader is in `EntityWorld.JsonText.Handle`).

Key definitions: `Handle`, `Handle.toBits`, `Handle.ofBits`, `Handle.display`.
-/

namespace EntityWorld

/-- The name of an entity: a slot and the generation of that slot it was given
out for. -/
structure Handle where
  index : UInt32
  generation : UInt32
deriving DecidableEq, Inhabited

namespace Handle

/-- The position of the handle's slot. -/
def slot (e : Handle) : Nat := e.index.toNat

/-- Slots come first, generations of one slot second. -/
instance : Ord Handle := ⟨compareLex (compareOn index) (compareOn generation)⟩

instance : Std.TransOrd Handle :=
  inferInstanceAs (Std.TransCmp (compareLex (compareOn index) (compareOn generation)))

instance : Std.LawfulEqOrd Handle where
  eq_of_compare {a b} h := by
    have h : compareLex (compareOn index) (compareOn generation) a b = .eq := h
    simp only [compareLex, compareOn, Ordering.then_eq_eq, Std.LawfulEqOrd.compare_eq_iff_eq] at h
    cases a; cases b; simp_all

/-- The handle as one word: the generation in the upper half, the slot in the
lower one. -/
def toBits (e : Handle) : UInt64 := (e.generation.toUInt64 <<< 32) ||| e.index.toUInt64

/-- The handle that a word stands for. -/
def ofBits (b : UInt64) : Handle := ⟨b.toUInt32, (b >>> 32).toUInt32⟩

/-- The handle as messages show it, such as `Entity(5v1)`. -/
def display (e : Handle) : String :=
  "Entity(" ++ e.index.toNat.repr ++ "v" ++ e.generation.toNat.repr ++ ")"

/-- The handle with its fields named. -/
def describe (e : Handle) : String :=
  "Entity \x7b index: " ++ e.index.toNat.repr ++ ", generation: " ++ e.generation.toNat.repr
    ++ " \x7d"

/-- The handle as a compact JSON object. -/
def toJson (e : Handle) : String :=
  "\x7b\"index\":" ++ e.index.toNat.repr ++ ",\"generation\":" ++ e.generation.toNat.repr ++ "\x7d"

end Handle
end EntityWorld
