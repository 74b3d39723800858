/-
# Type tags: 64-bit names of component types

Peers agree on a component type by a hash of its name, so that a tag means the
same on both sides whatever order the types were registered in. The hash is
FNV-1a: starting from a fixed basis, each byte is mixed in by exclusive or and
the state multiplied by a fixed odd prime, modulo 2^64.

Key definitions: `TypeTag.absorb`, `TypeTag.ofBytes`, `TypeTag.ofName`.
-/

namespace EntityWorld

/-- The identity of a component type in messages and snapshots. -/
structure TypeTag where
  value : UInt64
deriving DecidableEq, Inhabited

namespace TypeTag

instance : Ord TypeTag := ⟨compareOn value⟩

instance : Std.TransOrd TypeTag := inferInstanceAs (Std.TransCmp (compareOn value))

instance : Std.LawfulEqOrd TypeTag where
  eq_of_compare {a b} h := by
    have h : compareOn value a b = .eq := h
    simp only [compareOn, Std.LawfulEqOrd.compare_eq_iff_eq] at h
    cases a; cases b; simp_all

/-- The state of the hash before the first byte. -/
def basis : UInt64 := 0xcbf29ce484222325

/-- The factor of each step. It is odd, so a step loses nothing. -/
def prime : UInt64 := 0x100000001b3

/-- One step of the hash. -/
def absorb (state : UInt64) (byte : UInt8) : UInt64 := (state ^^^ byte.toUInt64) * prime

/-- The tag of a name given by its bytes. -/
def ofBytes (bytes : List UInt8) : TypeTag := ⟨bytes.foldl absorb basis⟩

/-- The tag of a type name. -/
def ofName (name : String) : TypeTag := ofBytes name.toUTF8.toList

/-- The tag as messages show it. -/
def describe (t : TypeTag) : String := "ComponentTypeId(" ++ t.value.toNat.repr ++ ")"

end TypeTag
end EntityWorld
