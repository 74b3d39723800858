/-
# Worlds

A world has entities in slots, a column of values per registered kind of
component, labels and a journal. Registering a kind makes its column; a kind
registered with a codec also takes part in snapshots. Two kinds with one tag
are never both registered.

Operations that can fail are actions: they give a result or an error, and the
world after it in either case.

Key definitions: `World`, `World.Action`, `World.register`,
`World.registerSynced`, `World.column?`.
-/
import EntityWorld.Column
import EntityWorld.Family
import EntityWorld.Journal
import EntityWorld.Labels
import EntityWorld.SlotPool

namespace EntityWorld

/-- A registered kind: its column, and how its values travel if they do. -/
structure Registration (κ : Type) [Family κ] where
  kind : κ
  column : Column (Value kind) := {}
  codec : Option (Codec (Value kind)) := none

structure World (κ : Type) [Family κ] where
  settings : Settings := {}
  pool : SlotPool := {}
  /-- The registered kinds in the order of their registration. -/
  registrations : List (Registration κ) := []
  labels : Labels := {}
  journal : Journal := {}

variable {κ : Type} [Family κ]

namespace Registration

def tag (r : Registration κ) : TypeTag := tagOf r.kind

def name (r : Registration κ) : String := typeName r.kind

/-- The column without the value in a slot. -/
def erase (i : Nat) (r : Registration κ) : Registration κ := { r with column := r.column.erase i }

/-- The bytes of the value in a slot, of a kind that takes part in snapshots. -/
def encode? (r : Registration κ) (i : Nat) : Option (List UInt8) :=
  match r.codec, r.column.get? i with
  | some codec, some v => some (codec.encode v)
  | _, _ => none

variable [DecidableEq κ]

/-- The column, if the kind is the one asked for. -/
def column? (k : κ) (r : Registration κ) : Option (Column (Value k)) :=
  if h : r.kind = k then some (h ▸ r.column) else none

/-- Changes the column, if the kind is the one asked for. -/
def modifyColumn (k : κ) (f : Column (Value k) → Column (Value k)) (r : Registration κ) :
    Registration κ :=
  if h : r.kind = k then { r with column := h ▸ f (h ▸ r.column) } else r

/-- Gives the kind a codec, if it is the one asked for and has none. -/
def offerCodec (k : κ) (codec : Option (Codec (Value k))) (r : Registration κ) :
    Registration κ :=
  if h : r.kind = k then { r with codec := r.codec.or (h ▸ codec) } else r

end Registration

namespace World

/-- An operation on a world that may fail. -/
abbrev Action (κ : Type) [Family κ] := EStateM WorldError (World κ)

/-- The world without entities that has some settings. There is none if the room
to set aside could not be addressed. -/
def ofSettings? (s : Settings) : Option (World κ) :=
  (SlotPool.reserve? { reuse := s.reuse } s.capacity.toNat).map fun pool =>
    { settings := s, pool := pool }

/-! ### Registered kinds -/

/-- The tags and names of the registered kinds, in the order of registration. -/
def types (w : World κ) : List (TypeTag × String) := w.registrations.map fun r => (r.tag, r.name)

/-- The registered kind that a tag stands for. -/
def ofTag? (w : World κ) (t : TypeTag) : Option (Registration κ) :=
  w.registrations.find? (·.tag == t)

variable [DecidableEq κ]

def isRegistered (w : World κ) (k : κ) : Bool := w.registrations.any (·.kind = k)

/-- The column of a kind, if it is registered. -/
def column? (w : World κ) (k : κ) : Option (Column (Value k)) :=
  w.registrations.findSome? (·.column? k)

/-- Registers a kind, with a codec or without. Of a kind registered before, the
column stays, and so does its codec if it has one. -/
def registerWith (k : κ) (codec : Option (Codec (Value k))) : Action κ Unit := fun w =>
  if w.isRegistered k then
    match w.settings.repeats with
    | .reject => .error (.alreadyRegistered (typeName k)) w
    | .accept =>
      .ok () { w with registrations := w.registrations.map (·.offerCodec k codec) }
  else match w.ofTag? (tagOf k) with
    | some other => .error (.tagCollision (typeName k) other.name (tagOf k)) w
    | none =>
      .ok () { w with registrations := w.registrations ++ [{ kind := k, codec := codec }] }

/-- Registers a kind that stays out of snapshots. -/
def register (k : κ) : Action κ Unit := registerWith k none

/-- Registers a kind that takes part in snapshots. -/
def registerSynced (k : κ) (codec : Codec (Value k)) : Action κ Unit := registerWith k (some codec)

/-- Registers the stock kinds for snapshots, one after another. It stops at the
first that fails. -/
def registerStock : Action (Stocked κ) Unit := do
  registerSynced .transform Transform.codec
  registerSynced .uiTransform UITransform.codec
  registerSynced .particle Particle.codec
  registerSynced .star Star.codec

/-- Changes the column of a kind, whatever its slots hold and whether anyone lives
there. The journal does not hear of it. -/
def modifyColumn (k : κ) (f : Column (Value k) → Column (Value k)) : Action κ Unit := fun w =>
  if w.isRegistered k then
    .ok () { w with registrations := w.registrations.map (·.modifyColumn k f) }
  else .error (.notRegistered (typeName k)) w

/-- The column of a kind; it is an error if there is none. -/
def column (k : κ) : Action κ (Column (Value k)) := fun w =>
  match w.column? k with
  | some c => .ok c w
  | none => .error (.notRegistered (typeName k)) w

/-- Writes a value to a position of a column, whoever lives there. It is false if
the column cannot have the position. -/
def writeAt (k : κ) (i : UInt64) (v : Value k) : Action κ Bool := do
  match Column.write i (some v) (← column k) with
  | .ok () c =>
    modifyColumn k fun _ => c
    return true
  | .error () c =>
    modifyColumn k fun _ => c
    return false

end World
end EntityWorld
