/-
# Settings in JSON

Settings are the record of their four fields, of which any may be missing: it
then has its default value.

Key definition: `Settings.ofJson`.
-/
import EntityWorld.JsonText.Fields

namespace EntityWorld

open JsonText

namespace Settings

/-- What has been read of the settings. -/
structure Draft where
  reuse : Option ReuseOrder := none
  repeats : Option RepeatRule := none
  capacity : Option UInt64 := none
  slotLimit : Option UInt32 := none

def jsonFields : List (RecordField Draft) :=
  [{ name := "recycle"
     isSet := (·.reuse.isSome)
     read := fun s cs => do
       let (word, rest) ← readWord ReuseOrder.ofWord cs
       .ok ({ s with reuse := some word }, rest) },
   { name := "duplicate_registration"
     isSet := (·.repeats.isSome)
     read := fun s cs => do
       let (word, rest) ← readWord RepeatRule.ofWord cs
       .ok ({ s with repeats := some word }, rest) },
   { name := "entity_capacity"
     isSet := (·.capacity.isSome)
     read := fun s cs => do
       let (n, rest) ← readNatural UInt64.size cs
       .ok ({ s with capacity := some (UInt64.ofNat n) }, rest) },
   { name := "max_entities"
     isSet := (·.slotLimit.isSome)
     read := fun s cs => do
       let (n, rest) ← readNatural UInt32.size cs
       .ok ({ s with slotLimit := some (UInt32.ofNat n) }, rest) }]

def Draft.finish (d : Draft) : Settings :=
  let base : Settings := {}
  { reuse := d.reuse.getD base.reuse
    repeats := d.repeats.getD base.repeats
    capacity := d.capacity.getD base.capacity
    slotLimit := d.slotLimit.getD base.slotLimit }

/-- The settings that a text stands for. -/
def ofJson (text : String) : Except Fault Settings :=
  parseRecord jsonFields {} (fun d => .ok d.finish) text

end Settings
end EntityWorld
