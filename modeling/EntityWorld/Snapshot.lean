/-
# Snapshots: components of a world as data

A snapshot lists components by slot, type tag and payload. It travels as
MessagePack: a record of one field, the list of entries, each a record of slot,
tag and payload, the payload being a list of numbers.

Key definitions: `Snapshot`, `Snapshot.encode`, `Snapshot.decode?`.
-/
import EntityWorld.Pack.Record

namespace EntityWorld

open Pack (Item)

/-- One component: the slot of its entity, its type and its bytes. -/
structure SnapshotEntry where
  index : UInt32
  tag : TypeTag
  data : List UInt8
deriving DecidableEq

structure Snapshot where
  entries : List SnapshotEntry := []
deriving DecidableEq

namespace SnapshotEntry

def toPack (e : SnapshotEntry) : List UInt8 :=
  Pack.list [Pack.natural e.index.toNat, Pack.natural e.tag.value.toNat,
    Pack.list (e.data.map fun b => Pack.natural b.toNat)]

def ofItem? (i : Item) : Option SnapshotEntry := do
  match ← i.fields? ["index", "tag", "data"] with
  | [index, tag, data] =>
    let index ← index.toNat? UInt32.size
    let tag ← tag.toNat? UInt64.size
    let data ← (← data.items?).mapM (·.toNat? UInt8.size)
    return ⟨UInt32.ofNat index, ⟨UInt64.ofNat tag⟩, data.map UInt8.ofNat⟩
  | _ => none

end SnapshotEntry

namespace Snapshot

def size (s : Snapshot) : Nat := s.entries.length

def isEmpty (s : Snapshot) : Bool := s.entries.isEmpty

/-- The entries of one slot. -/
def entriesFor (s : Snapshot) (index : UInt32) : List SnapshotEntry :=
  s.entries.filter (·.index == index)

def encode (s : Snapshot) : List UInt8 := Pack.list [Pack.list (s.entries.map (·.toPack))]

def ofItem? (i : Item) : Option Snapshot := do
  match ← i.fields? ["entries"] with
  | [entries] => return ⟨← (← entries.items?).mapM SnapshotEntry.ofItem?⟩
  | _ => none

/-- The snapshot at the front of some bytes. -/
def decode? (bytes : List UInt8) : Option Snapshot := Pack.decode? ofItem? bytes

end Snapshot
end EntityWorld
