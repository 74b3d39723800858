/-
# Entities of a world

Entities come to life in a slot of the world's choice (`spawn`) or of the
caller's (`claim`), and end by `kill`, which also empties the slot in every
column and undoes the bindings of labels. Labels are bound to live entities
only.

Key definitions: `World.spawn`, `World.claim`, `World.kill`, `World.bindLabel`.
-/
import EntityWorld.World.Basic

namespace EntityWorld.World

variable {κ : Type} [Family κ]

def isAlive (w : World κ) (e : Handle) : Bool := w.pool.isAlive e

/-- The live entities, slots ascending. -/
def entities (w : World κ) : List Handle := w.pool.alive

/-- A new entity in a slot of the world's choice. -/
def spawn : Action κ Handle := fun w =>
  match SlotPool.spawn w.pool with
  | .error cause _ => .error (.handle cause) w
  | .ok e pool => .ok e { w with pool := pool, journal := w.journal.recordCreation e }

/-- Ends an entity: its components, its labels' bindings and its hold on its slot. -/
def kill (e : Handle) : Action κ Unit := fun w =>
  match SlotPool.kill e w.pool with
  | .error cause _ => .error (.handle cause) w
  | .ok _ pool =>
    .ok () { w with
      pool := pool
      registrations := w.registrations.map (·.erase e.slot)
      labels := w.labels.unbind e
      journal := w.journal.recordDestruction e }

/-- Whether a slot may be asked for: one that is open, or one below the limit that
the settings give. -/
def mayClaim (w : World κ) (i : UInt32) : Bool :=
  i != SlotPool.limit && (i < w.pool.next || i < w.settings.slotLimit)

/-- Makes a slot live, if the slot pool allows it. -/
def occupy (i : UInt32) : EStateM HandleError (World κ) Handle := fun w =>
  match SlotPool.claim i w.pool with
  | .error cause _ => .error cause w
  | .ok e pool => .ok e { w with pool := pool, journal := w.journal.recordCreation e }

/-- A new entity in a slot of the caller's choice. -/
def claim (i : UInt32) : Action κ Handle := fun w =>
  if w.mayClaim i then EStateM.adaptExcept .handle (occupy i) w
  else .error (.handle (.outOfRange i)) w

/-! ### Labels -/

/-- An operation on the labels that needs a live entity. -/
def onLabels {α : Type} (e : Handle) (op : EStateM LabelError Labels α) : Action κ α := fun w =>
  if w.isAlive e then
    match op w.labels with
    | .ok a labels => .ok a { w with labels := labels }
    | .error cause labels => .error (.label cause) { w with labels := labels }
  else .error (.handle (.notAlive e)) w

/-- Binds a label to a live entity. -/
def bindLabel (id : UInt32) (e : Handle) : Action κ Unit := onLabels e (Labels.bind id e)

/-- A new label bound to a live entity. -/
def createLabel (name : String) (e : Handle) : Action κ UInt32 :=
  onLabels e (Labels.createAndBind name e)

/-! ### Versions -/

/-- Sets the version that further changes are stamped with. -/
def setVersion (w : World κ) (v : Nat) : World κ := { w with journal := { w.journal with now := v } }

/-- Drops the journal's stamps up to and including a version. -/
def prune (w : World κ) (v : Nat) : World κ := { w with journal := w.journal.prune v }

end EntityWorld.World
