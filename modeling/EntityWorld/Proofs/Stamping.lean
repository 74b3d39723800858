/-
# All stamps in one table

The journal has four tables, and four operations make records in them. Taken as one
table, from keys to versions (`Journal.stamp?`), there is one way to make a record: it
stamps its own key, clears the keys that it stands for and leaves all others alone,
whatever they had (`Journal.stamp?_record`). Pruning and dropping look at one key at a
time too. So what is said of all stamps is shown once for all records.

Key definitions: `Journal.stamp?`, `Journal.Record`, `Journal.record`.
Key theorems: `Journal.eq_of_stamp?`, `Journal.stamp?_record`, `Journal.stamp?_prune`,
`Journal.stamp?_forget`.
-/
import EntityWorld.Proofs.Records
import Mathlib.Tactic

namespace EntityWorld.Journal

/-- The version that a key is stamped with. -/
def stamp? (j : Journal) : Key → Option Nat
  | .created e => j.createdAt? e
  | .destroyed e => j.destroyedAt? e
  | .updated e t => j.updatedAt? e t
  | .removed e t => j.removedAt? e t

/-- What can be recorded. -/
inductive Record where
  | creation (e : Handle)
  | destruction (e : Handle)
  | update (e : Handle) (t : TypeTag)
  | removal (e : Handle) (t : TypeTag)

namespace Record

/-- The key that is stamped. -/
def key : Record → Key
  | creation e => .created e
  | destruction e => .destroyed e
  | update e t => .updated e t
  | removal e t => .removed e t

/-- The keys whose stamps are taken away. -/
def clears : Record → Key → Bool
  | destruction e, .updated e' _ => e' = e
  | destruction e, .removed e' _ => e' = e
  | update e t, .removed e' t' => e' = e ∧ t' = t
  | removal e t, .updated e' t' => e' = e ∧ t' = t
  | _, _ => false

end Record

/-- The journal with one more record. -/
def record (j : Journal) : Record → Journal
  | .creation e => j.recordCreation e
  | .destruction e => j.recordDestruction e
  | .update e t => j.recordUpdate e t
  | .removal e t => j.recordRemoval e t

variable {j j' : Journal} {x : Key} {r : Record}

/-- A journal is told by its clock and its stamps. -/
theorem eq_of_stamp? (hnow : j.now = j'.now) (h : ∀ x, j.stamp? x = j'.stamp? x) : j = j' := by
  have hcreated : ∀ e, j.created[e]? = j'.created[e]? := fun e => h (.created e)
  have hdestroyed : ∀ e, j.destroyed[e]? = j'.destroyed[e]? := fun e => h (.destroyed e)
  have hupdated : ∀ k : ComponentKey, j.updated[k]? = j'.updated[k]? :=
    fun k => h (.updated k.entity k.tag)
  have hremoved : ∀ k : ComponentKey, j.removed[k]? = j'.removed[k]? :=
    fun k => h (.removed k.entity k.tag)
  obtain ⟨now, created, destroyed, updated, removed⟩ := j
  cases hnow
  cases Std.ExtTreeMap.ext_getElem? hcreated
  cases Std.ExtTreeMap.ext_getElem? hdestroyed
  cases Std.ExtTreeMap.ext_getElem? hupdated
  cases Std.ExtTreeMap.ext_getElem? hremoved
  rfl

@[simp] theorem now_record (j : Journal) (r : Record) : (j.record r).now = j.now := by
  cases r <;> rfl

theorem stamp?_record (j : Journal) (r : Record) (x : Key) :
    (j.record r).stamp? x =
      if x = r.key then some j.now else if r.clears x then none else j.stamp? x := by
  cases r with
  | creation e =>
    cases x with
    | created e' => simp [record, stamp?, Record.key, Record.clears, createdAt?_recordCreation]
    | _ => rfl
  | destruction e =>
    cases x with
    | created e' => rfl
    | destroyed e' =>
      simp [record, stamp?, Record.key, Record.clears, destroyedAt?_recordDestruction]
    | updated e' t' => simp [record, stamp?, Record.key, Record.clears, updatedAt?_recordDestruction]
    | removed e' t' => simp [record, stamp?, Record.key, Record.clears, removedAt?_recordDestruction]
  | update e t =>
    cases x with
    | updated e' t' => simp [record, stamp?, Record.key, Record.clears, updatedAt?_recordUpdate]
    | removed e' t' => simp [record, stamp?, Record.key, Record.clears, removedAt?_recordUpdate]
    | _ => rfl
  | removal e t =>
    cases x with
    | updated e' t' => simp [record, stamp?, Record.key, Record.clears, updatedAt?_recordRemoval]
    | removed e' t' => simp [record, stamp?, Record.key, Record.clears, removedAt?_recordRemoval]
    | _ => rfl

theorem stamp?_prune (j : Journal) (a : Nat) (x : Key) :
    (j.prune a).stamp? x = (j.stamp? x).filter (a < ·) := by
  cases x with
  | created e => exact createdAt?_prune a
  | destroyed e => exact destroyedAt?_prune a
  | updated e t => exact updatedAt?_prune j a e t
  | removed e t => exact removedAt?_prune j a e t

theorem stamp?_forget (j : Journal) (x y : Key) :
    (j.forget x).stamp? y = if y = x then none else j.stamp? y := by
  cases x with
  | created e =>
    cases y with
    | created e' =>
      simp only [forget, forgetCreation, stamp?, createdAt?, Std.ExtTreeMap.getElem?_erase,
        Std.LawfulEqOrd.compare_eq_iff_eq, Key.created.injEq]
      exact if_congr eq_comm rfl rfl
    | _ => rfl
  | destroyed e =>
    cases y with
    | destroyed e' =>
      simp only [forget, forgetDestruction, stamp?, destroyedAt?, Std.ExtTreeMap.getElem?_erase,
        Std.LawfulEqOrd.compare_eq_iff_eq, Key.destroyed.injEq]
      exact if_congr eq_comm rfl rfl
    | _ => rfl
  | updated e t =>
    cases y with
    | updated e' t' =>
      simp only [forget, forgetUpdate, stamp?, updatedAt?, Std.ExtTreeMap.getElem?_erase,
        Std.LawfulEqOrd.compare_eq_iff_eq, ComponentKey.mk.injEq, Key.updated.injEq]
      exact if_congr (and_congr eq_comm eq_comm) rfl rfl
    | _ => rfl
  | removed e t =>
    cases y with
    | removed e' t' =>
      simp only [forget, forgetRemoval, stamp?, removedAt?, Std.ExtTreeMap.getElem?_erase,
        Std.LawfulEqOrd.compare_eq_iff_eq, ComponentKey.mk.injEq, Key.removed.injEq]
      exact if_congr (and_congr eq_comm eq_comm) rfl rfl
    | _ => rfl

end EntityWorld.Journal
