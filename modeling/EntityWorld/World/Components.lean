/-
# Components of entities

Reading and writing the components of an entity by its handle. A write needs a
registered kind and a live entity, in this order; reading through the handle of
a dead entity finds nothing. Every write is recorded in the journal but `edit`,
which is for changes that `markDirty` announces afterwards.

Key definitions: `World.add`, `World.emplace`, `World.remove`,
`World.markDirty`, `World.edit`, `World.get`.
-/
import EntityWorld.World.Entities

namespace EntityWorld.World

variable {κ : Type} [Family κ]

/-- The tags of the components that an entity has, in the order of registration. -/
def typesOf (w : World κ) (e : Handle) : List TypeTag :=
  if w.isAlive e then (w.registrations.filter (·.column.contains e.slot)).map (·.tag) else []

variable [DecidableEq κ]

/-- The component of an entity. -/
def get? (w : World κ) (k : κ) (e : Handle) : Option (Value k) :=
  if w.isAlive e then (w.column? k).bind (·.get? e.slot) else none

/-- The component of an entity; the kind has to be registered. -/
def get (k : κ) (e : Handle) : Action κ (Option (Value k)) := do
  let _ ← column k
  return (← EStateM.get).get? k e

/-- Changes a component in place, without a record in the journal, and gives back
what it was. -/
def edit (k : κ) (e : Handle) (f : Value k → Value k) : Action κ (Option (Value k)) := do
  let old ← get k e
  if old.isSome then modifyColumn k (·.modify e.slot f)
  return old

/-- What every write needs: a registered kind and a live entity. -/
def checkAccess (k : κ) (e : Handle) : Action κ Unit := fun w =>
  if !w.isRegistered k then .error (.notRegistered (typeName k)) w
  else if !w.isAlive e then .error (.handle (.notAlive e)) w
  else .ok () w

/-- Records that a component was written. -/
def recordUpdate (k : κ) (e : Handle) : Action κ Unit :=
  EStateM.modifyGet fun w => ((), { w with journal := w.journal.recordUpdate e (tagOf k) })

/-- Records that a component was removed. -/
def recordRemoval (k : κ) (e : Handle) : Action κ Unit :=
  EStateM.modifyGet fun w => ((), { w with journal := w.journal.recordRemoval e (tagOf k) })

/-- Gives an entity a component, in place of the one it has. -/
def add (k : κ) (e : Handle) (v : Value k) : Action κ Unit := do
  checkAccess k e
  recordUpdate k e
  modifyColumn k (·.insert e.slot v)

/-- Gives an entity a component that `make` makes. The slot is opened and the write
recorded before `make` is asked, so they are there also if it makes nothing;
what the entity had is then lost. -/
def emplace (k : κ) (e : Handle) (make : Unit → Option (Value k)) : Action κ (Option (Value k)) := do
  checkAccess k e
  recordUpdate k e
  let made := make ()
  modifyColumn k (·.put e.slot made)
  return made

/-- Takes a component away and gives it back. -/
def remove (k : κ) (e : Handle) : Action κ (Option (Value k)) := do
  checkAccess k e
  let old := (← EStateM.get).get? k e
  modifyColumn k (·.erase e.slot)
  if old.isSome then recordRemoval k e
  return old

/-- Records a component as written now, if the entity has it. -/
def markDirty (k : κ) (e : Handle) : Action κ Bool := do
  checkAccess k e
  let present := ((← EStateM.get).get? k e).isSome
  if present then recordUpdate k e
  return present

end EntityWorld.World
