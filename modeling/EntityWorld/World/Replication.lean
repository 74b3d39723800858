/-
# Worlds as snapshots

Capturing a world lists the components of its live entities whose kinds take
part in snapshots, slots ascending and kinds in the order of registration. A
change capture lists those written after some version.

Restoring a snapshot writes its components into a world, claiming the slots
that are not live. The whole snapshot is checked first, entry by entry, so that
a snapshot with a fault changes nothing.

Key definitions: `World.capture`, `World.captureSince`, `World.restore`.
-/
import EntityWorld.World.Components
import EntityWorld.Snapshot

namespace EntityWorld.World

variable {κ : Type} [Family κ]

/-- The components for which `keep` holds. -/
def captureWhere (w : World κ) (keep : Handle → TypeTag → Bool) : Snapshot :=
  ⟨w.entities.flatMap fun e => w.registrations.filterMap fun r =>
    if keep e r.tag then
      (r.encode? e.slot).map fun data => { index := e.index, tag := r.tag, data := data }
    else none⟩

/-- All components that take part in snapshots. -/
def capture (w : World κ) : Snapshot := w.captureWhere fun _ _ => true

/-- The components that take part in snapshots and were written after a version. -/
def captureSince (w : World κ) (since : Nat) : Snapshot :=
  w.captureWhere fun e t => (w.journal.updatedAt? e t).any (since < ·)

/-- The kind that a tag stands for in snapshots, and its codec. -/
def synced? (w : World κ) (t : TypeTag) : Option ((k : κ) × Codec (Value k)) :=
  (w.ofTag? t).bind fun r => r.codec.map fun codec => ⟨r.kind, codec⟩

/-- Whether an entry can be restored: its tag is known, its slot may be asked for
and its payload can be read. -/
def checkEntry (w : World κ) (entry : SnapshotEntry) : Except SnapshotError Unit :=
  match w.synced? entry.tag with
  | none => .error (.unknownTag entry.tag)
  | some ⟨_, codec⟩ =>
    if !w.mayClaim entry.index then .error (.handle (.outOfRange entry.index))
    else match codec.decode entry.data with
      | .ok _ => .ok ()
      | .error cause => .error (.payload entry.index cause)

/-- Whether all entries can be restored, or why the first that cannot does not. -/
def check (w : World κ) (entries : List SnapshotEntry) : Except SnapshotError Unit :=
  entries.forM w.checkEntry

variable [DecidableEq κ]

/-- The live entity of a slot, which is claimed if it is not live. -/
def inhabit (i : UInt32) : EStateM HandleError (World κ) Handle := fun w =>
  if w.isAlive (w.pool.current i) then .ok (w.pool.current i) w else occupy i w

/-- Writes the component of an entry. -/
def restoreEntry (entry : SnapshotEntry) : EStateM SnapshotError (World κ) Unit := fun w =>
  match w.synced? entry.tag with
  | none => .error (.unknownTag entry.tag) w
  | some ⟨k, codec⟩ =>
    match inhabit entry.index w with
    | .error cause w => .error (.handle cause) w
    | .ok e w =>
      match codec.decode entry.data with
      | .error cause => .error (.payload entry.index cause) w
      | .ok v => EStateM.adaptExcept .world (add k e v) w

/-- Writes the components of a snapshot. -/
def restore (s : Snapshot) : EStateM SnapshotError (World κ) Unit := fun w =>
  match w.check s.entries with
  | .error cause => .error cause w
  | .ok () => s.entries.forM restoreEntry w

end EntityWorld.World
