/-
# Operations as data

What can be asked of a world, as data, so that a run is a list and a reachable
world is one that some run leads to. An operation that fails leaves a world
behind too (`after`), and the run goes on from there.

Besides the actions of `World` there are edits in place of a whole column, what
may be done to labels without naming a live entity, and forgetting one stamp of
the journal. Writing to a column from outside is not among them: it can put a
component where nobody lives.

Key definitions: `Operation`, `Operation.apply`, `World.run`, `World.Along`,
`World.ReachableBy`, `World.Reachable`. Key theorem: `World.ReachableBy.run`.
-/
import EntityWorld.Proofs.Runs
import EntityWorld.World.Replication
import Mathlib.Tactic

namespace EntityWorld

namespace Journal

/-- One stamp of a journal, by what it tells. -/
inductive Key where
  | created (e : Handle)
  | destroyed (e : Handle)
  | updated (e : Handle) (t : TypeTag)
  | removed (e : Handle) (t : TypeTag)
deriving DecidableEq

/-- The journal without one stamp. -/
def forget (j : Journal) : Key → Journal
  | .created e => j.forgetCreation e
  | .destroyed e => j.forgetDestruction e
  | .updated e t => j.forgetUpdate e t
  | .removed e t => j.forgetRemoval e t

end Journal

/-- An operation on a world. -/
inductive Operation (κ : Type) [Family κ] where
  | register (k : κ)
  | registerSynced (k : κ) (codec : Codec (Value k))
  | spawn
  | claim (i : UInt32)
  | kill (e : Handle)
  | add (k : κ) (e : Handle) (v : Value k)
  | emplace (k : κ) (e : Handle) (make : Unit → Option (Value k))
  | remove (k : κ) (e : Handle)
  | markDirty (k : κ) (e : Handle)
  | edit (k : κ) (e : Handle) (f : Value k → Value k)
  /-- An edit in place of the column, by position. -/
  | editAt (k : κ) (i : Nat) (f : Value k → Value k)
  /-- An edit in place of every value of the column. -/
  | editAll (k : κ) (f : Value k → Value k)
  | nameLabel (name : String)
  | bindLabel (id : UInt32) (e : Handle)
  | createLabel (name : String) (e : Handle)
  | unbindLabels (e : Handle)
  | restore (s : Snapshot)
  | setVersion (v : Nat)
  | prune (v : Nat)
  | forget (x : Journal.Key)

/-- The family without kinds: of a world over `Stocked Empty` there are the stock
kinds only. -/
instance : Family Empty where
  Value := nofun
  typeName := nofun

variable {κ : Type} [Family κ] [DecidableEq κ]

/-- The world after an operation. -/
def Operation.apply : Operation κ → World κ → World κ
  | register k, w => after (World.register k) w
  | registerSynced k codec, w => after (World.registerSynced k codec) w
  | spawn, w => after World.spawn w
  | claim i, w => after (World.claim i) w
  | kill e, w => after (World.kill e) w
  | add k e v, w => after (World.add k e v) w
  | emplace k e make, w => after (World.emplace k e make) w
  | remove k e, w => after (World.remove k e) w
  | markDirty k e, w => after (World.markDirty k e) w
  | edit k e f, w => after (World.edit k e f) w
  | editAt k i f, w => after (World.modifyColumn k (·.modify i f)) w
  | editAll k f, w => after (World.modifyColumn k (·.map f)) w
  | nameLabel name, w => { w with labels := after (Labels.create name) w.labels }
  | bindLabel id e, w => after (World.bindLabel id e) w
  | createLabel name e, w => after (World.createLabel name e) w
  | unbindLabels e, w => { w with labels := w.labels.unbind e }
  | restore s, w => after (World.restore s) w
  | setVersion v, w => w.setVersion v
  | prune v, w => w.prune v
  | forget x, w => { w with journal := w.journal.forget x }

namespace World

omit [DecidableEq κ] in
/-- A world without entities, as `ofSettings?` makes it. -/
theorem eq_of_ofSettings? {w : World κ} {s : Settings} (h : ofSettings? s = some w) :
    w = { settings := s, pool := { reuse := s.reuse } } := by
  simp only [ofSettings?, SlotPool.reserve?, Option.map_eq_some_iff] at h
  obtain ⟨pool, hp, rfl⟩ := h
  split at hp
  · cases hp
    rfl
  · cases hp

/-- The world after some operations, one after another. -/
def run (w : World κ) (ops : List (Operation κ)) : World κ := ops.foldl (fun w op => op.apply w) w

@[simp] theorem run_nil (w : World κ) : w.run [] = w := rfl

@[simp] theorem run_cons (w : World κ) (op : Operation κ) (ops : List (Operation κ)) :
    w.run (op :: ops) = (op.apply w).run ops := rfl

/-- Every operation of a run is allowed where it happens. -/
def Along (allow : World κ → Operation κ → Prop) : World κ → List (Operation κ) → Prop
  | _, [] => True
  | w, op :: ops => allow w op ∧ Along allow (op.apply w) ops

/-- The worlds that allowed operations lead to from one without entities. -/
inductive ReachableBy (allow : World κ → Operation κ → Prop) : World κ → Prop
  | start {s : Settings} {w : World κ} : ofSettings? s = some w → ReachableBy allow w
  | step {w : World κ} {op : Operation κ} :
      ReachableBy allow w → allow w op → ReachableBy allow (op.apply w)

/-- The worlds that operations lead to. -/
abbrev Reachable (w : World κ) : Prop := ReachableBy (fun _ _ => True) w

variable {allow : World κ → Operation κ → Prop} {w : World κ}

theorem ReachableBy.run (h : ReachableBy allow w) {ops : List (Operation κ)}
    (hops : Along allow w ops) : ReachableBy allow (w.run ops) := by
  induction ops generalizing w with
  | nil => exact h
  | cons op ops ih => exact ih (h.step hops.1) hops.2

end World
end EntityWorld
