/-
# Handles in JSON

A handle is the record of its slot and its generation, and needs both.

Key definition: `Handle.ofJson`.
-/
import EntityWorld.Handle
import EntityWorld.JsonText.Fields

namespace EntityWorld

open JsonText

namespace Handle

/-- What has been read of a handle. -/
structure Draft where
  index : Option UInt32 := none
  generation : Option UInt32 := none

def jsonFields : List (RecordField Draft) :=
  [{ name := "index"
     isSet := (·.index.isSome)
     read := fun s cs => do
       let (n, rest) ← readNatural UInt32.size cs
       .ok ({ s with index := some (UInt32.ofNat n) }, rest) },
   { name := "generation"
     isSet := (·.generation.isSome)
     read := fun s cs => do
       let (n, rest) ← readNatural UInt32.size cs
       .ok ({ s with generation := some (UInt32.ofNat n) }, rest) }]

def Draft.finish : Draft → Except Fault Handle
  | ⟨some index, some generation⟩ => .ok ⟨index, generation⟩
  | _ => .error .mismatch

/-- The handle that a text stands for. -/
def ofJson (text : String) : Except Fault Handle := parseRecord jsonFields {} Draft.finish text

end Handle
end EntityWorld
