/-
# The slot pool: which slots are live, and who lives in them

The pool gives out handles. A slot is live or free, never both; a free slot
waits in the queue `free`, oldest first, and is taken again before a new slot
is opened. Emptying a slot moves it on to its next generation, so that no
handle is ever given out twice.

Slots are opened in order. Asking for a slot past the end opens all slots in
between too, and these start out free.

Key definitions: `SlotPool.spawn`, `SlotPool.kill`, `SlotPool.claim`,
`SlotPool.isAlive`, `SlotPool.alive`.
-/
import EntityWorld.Error
import EntityWorld.Settings
import EntityWorld.Text.Bracketed

namespace EntityWorld

/-- One place for an entity. -/
structure Slot where
  generation : UInt32 := 0
  live : Bool := false
deriving DecidableEq, Inhabited

structure SlotPool where
  reuse : ReuseOrder := .newestFirst
  /-- Every slot ever opened. -/
  slots : Array Slot := #[]
  /-- The free slots, the one freed first at the front. -/
  free : Array UInt32 := #[]
  liveCount : Nat := 0
deriving DecidableEq, Inhabited

namespace SlotPool

/-- Slots are below this index, so that the number of slots is an index too. -/
def limit : UInt32 := 0xffffffff

/-- The slot that the next new opening makes. -/
def next (p : SlotPool) : UInt32 := UInt32.ofNat p.slots.size

/-- The handle of a slot in its current generation, live or not. -/
def current (p : SlotPool) (i : UInt32) : Handle :=
  ⟨i, (p.slots[i.toNat]?.getD {}).generation⟩

def isAlive (p : SlotPool) (e : Handle) : Bool :=
  match p.slots[e.slot]? with
  | some s => s.live && s.generation == e.generation
  | none => false

theorem isAlive_iff {p : SlotPool} {e : Handle} : p.isAlive e ↔
    ∃ s, p.slots[e.slot]? = some s ∧ s.live ∧ s.generation = e.generation := by
  unfold isAlive
  cases p.slots[e.slot]? <;> simp

/-- The handles of all live entities, slots ascending. -/
def alive (p : SlotPool) : List Handle :=
  p.slots.toList.zipIdx.filterMap fun (s, i) =>
    if s.live then some ⟨UInt32.ofNat i, s.generation⟩ else none

/-- The free slot to take next, and those left after it. -/
def takeFree (p : SlotPool) : Option (UInt32 × Array UInt32) :=
  match p.reuse with
  | .newestFirst => p.free.back?.map (·, p.free.pop)
  | .oldestFirst => p.free[0]?.map (·, p.free.extract 1)

/-- Makes a slot live in its current generation. -/
def occupy (p : SlotPool) (i : UInt32) : Handle × SlotPool :=
  (p.current i,
    { p with
      slots := p.slots.modify i.toNat fun s => { s with live := true }
      liveCount := p.liveCount + 1 })

/-- A new entity, in a free slot if there is one and in a new slot otherwise. -/
def spawn : EStateM HandleError SlotPool Handle := fun p =>
  match p.takeFree with
  | some (i, rest) =>
    let (e, q) := occupy { p with free := rest } i
    .ok e q
  | none =>
    if p.slots.size < limit.toNat then
      let (e, q) := occupy { p with slots := p.slots.push {} } p.next
      .ok e q
    else .error .exhausted p

/-- Empties the slot of a live entity. -/
def kill (e : Handle) : EStateM HandleError SlotPool Unit := fun p =>
  if p.isAlive e then
    .ok () { p with
      slots := p.slots.modify e.slot fun s => { generation := s.generation + 1, live := false }
      free := p.free.push e.index
      liveCount := p.liveCount - 1 }
  else .error (.notAlive e) p

/-- Opens all slots up to and including `i`, free but for `i` itself. -/
def openUpTo (p : SlotPool) (i : UInt32) : SlotPool :=
  { p with
    slots := p.slots ++ Array.replicate (i.toNat + 1 - p.slots.size) {}
    free := p.free ++ ((List.range' p.slots.size (i.toNat - p.slots.size)).map UInt32.ofNat).toArray }

/-- Makes the slot `i` live, opening it if need be. -/
def claim (i : UInt32) : EStateM HandleError SlotPool Handle := fun p =>
  if i = limit then .error (.outOfRange i) p
  else match p.slots[i.toNat]? with
    | some s =>
      if s.live then .error (.alreadyAlive i) p
      else
        let (e, q) := occupy { p with free := p.free.filter (· != i) } i
        .ok e q
    | none =>
      let (e, q) := occupy (p.openUpTo i) i
      .ok e q

/-- Sets room aside for `n` more slots. It is refused when the room, four bytes
a slot, could not be addressed; the slots themselves do not change. -/
def reserve? (p : SlotPool) (n : Nat) : Option SlotPool :=
  if (p.slots.size + n) * 4 < 0x8000000000000000 then some p else none

/-- The pool with its fields named. -/
def describe (p : SlotPool) : String :=
  "EntityAllocator \x7b generations: "
    ++ Text.bracketed (p.slots.toList.map fun s => s.generation.toNat.repr)
    ++ ", alive: " ++ Text.bracketed (p.slots.toList.map fun s => toString s.live)
    ++ ", free: " ++ Text.bracketed (p.free.toList.map fun i => i.toNat.repr)
    ++ ", alive_count: " ++ p.liveCount.repr
    ++ ", policy: " ++ p.reuse.describe ++ " \x7d"

end SlotPool
end EntityWorld
