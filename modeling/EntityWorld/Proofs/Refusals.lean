/-
# When an operation is refused

An operation looks before it writes. Some look again while they write: a label is
made before it is bound, the stamp of a component is set before its column is
asked for. None of these later looks ever finds fault, so a world that refuses
an operation is left as it was, and it refuses on the grounds that `Refusal`
lists and on no others (`World.WellFormed.failure?_eq_some_iff`).

The same holds if an entity is killed in another order, its columns emptied and
its labels unbound before the pool is asked (`World.killLate_eq`).

Key definitions: `failed?`, `Operation.failure?`, `World.Refusal`,
`World.killLate`.
Key theorems: `World.killLate_eq`, `World.WellFormed.failure?_eq_some_iff`,
`World.Reachable.refuses`.
-/
import EntityWorld.Proofs.WellFormed
import Mathlib.Tactic

namespace EntityWorld

/-! ### Failures -/

/-- What an action fails with, and the state that it leaves then. -/
def failed? {ε σ α : Type} (act : EStateM ε σ α) (s : σ) : Option (ε × σ) :=
  match act s with
  | .ok _ _ => none
  | .error c t => some (c, t)

theorem failed?_of_ok {ε σ α : Type} {act : EStateM ε σ α} {s t : σ} {a : α}
    (h : act s = .ok a t) : failed? act s = none := by
  unfold failed?
  rw [h]

theorem failed?_of_error {ε σ α : Type} {act : EStateM ε σ α} {s t : σ} {c : ε}
    (h : act s = .error c t) : failed? act s = some (c, t) := by
  unfold failed?
  rw [h]

variable {κ : Type} [Family κ] [DecidableEq κ]

/-- What the action of an operation fails with, and the world that it leaves then.
Naming a label and restoring a snapshot have errors of their own; the others
that are not listed cannot fail. -/
def Operation.failure? : Operation κ → World κ → Option (WorldError × World κ)
  | register k, w => failed? (World.register k) w
  | registerSynced k codec, w => failed? (World.registerSynced k codec) w
  | spawn, w => failed? World.spawn w
  | claim i, w => failed? (World.claim i) w
  | kill e, w => failed? (World.kill e) w
  | add k e v, w => failed? (World.add k e v) w
  | emplace k e make, w => failed? (World.emplace k e make) w
  | remove k e, w => failed? (World.remove k e) w
  | markDirty k e, w => failed? (World.markDirty k e) w
  | edit k e f, w => failed? (World.edit k e f) w
  | editAt k i f, w => failed? (World.modifyColumn k (·.modify i f)) w
  | editAll k f, w => failed? (World.modifyColumn k (·.map f)) w
  | bindLabel id e, w => failed? (World.bindLabel id e) w
  | createLabel name e, w => failed? (World.createLabel name e) w
  | _, _ => none

/-! ### The grounds -/

namespace World

section Grounds

variable (w : World κ)

/-- The grounds for refusing to register a kind. -/
def RefusesKind (k : κ) (c : WorldError) : Prop :=
  w.isRegistered k ∧ w.settings.repeats = .reject ∧ c = .alreadyRegistered (typeName k) ∨
    ¬ w.isRegistered k ∧ ∃ r ∈ w.registrations, r.tag = tagOf k ∧
      c = .tagCollision (typeName k) r.name (tagOf k)

/-- The grounds for refusing to edit a column in place. -/
def RefusesColumn (k : κ) (c : WorldError) : Prop :=
  ¬ w.isRegistered k ∧ c = .notRegistered (typeName k)

/-- The grounds for refusing what needs a live entity. -/
def RefusesEntity (e : Handle) (c : WorldError) : Prop :=
  ¬ w.isAlive e ∧ c = .handle (.notAlive e)

/-- The grounds for refusing to open a slot. -/
def RefusesSlot (i : UInt32) (c : WorldError) : Prop :=
  (i = SlotPool.limit ∨ w.pool.next ≤ i ∧ w.settings.slotLimit ≤ i) ∧ c = .handle (.outOfRange i) ∨
    ¬ (i = SlotPool.limit ∨ w.pool.next ≤ i ∧ w.settings.slotLimit ≤ i) ∧
      (w.pool.slotAt i.toNat).live = true ∧ c = .handle (.alreadyAlive i)

/-- The grounds for refusing an operation. -/
def Refusal : Operation κ → WorldError → Prop
  | .register k, c | .registerSynced k _, c => w.RefusesKind k c
  | .add k e _, c | .emplace k e _, c | .remove k e, c | .markDirty k e, c =>
    w.RefusesColumn k c ∨ w.isRegistered k ∧ w.RefusesEntity e c
  | .edit k _ _, c | .editAt k _ _, c | .editAll k _, c => w.RefusesColumn k c
  | .kill e, c => w.RefusesEntity e c
  | .bindLabel id e, c => w.RefusesEntity e c ∨
    w.isAlive e ∧ w.labels.name? id = none ∧ c = .label (.unknown id)
  | .createLabel name e, c => w.RefusesEntity e c ∨
    w.isAlive e ∧ (w.labels.id? name).isSome ∧ c = .label (.duplicateName name)
  | .claim i, c => w.RefusesSlot i c
  | .spawn, c =>
    w.pool.takeFree = none ∧ SlotPool.limit.toNat ≤ w.pool.slots.size ∧ c = .handle .exhausted
  | _, _ => False

end Grounds

variable {w w' : World κ} {c : WorldError} {k : κ} {e : Handle}

omit [DecidableEq κ] in
theorem some_eq_some_iff {cause : WorldError} :
    some (cause, w) = some (c, w') ↔ c = cause ∧ w' = w := by
  rw [Option.some.injEq, Prod.mk.injEq, eq_comm (a := cause), eq_comm (a := w)]

/-! ### Kinds and columns -/

theorem failed?_registerWith_iff (hw : w.TagsDistinct) (codec : Option (Codec (Value k))) :
    failed? (registerWith k codec) w = some (c, w') ↔ w.RefusesKind k c ∧ w' = w := by
  unfold RefusesKind
  by_cases hk : w.isRegistered k
  · have heq := registerWith_of_isRegistered hk codec
    cases hrep : w.settings.repeats with
    | reject =>
      rw [hrep] at heq
      rw [failed?_of_error heq, some_eq_some_iff]
      simp [hk]
    | accept =>
      rw [hrep] at heq
      rw [failed?_of_ok heq]
      simp [hk]
  · have heq := registerWith_of_not_isRegistered hk codec
    cases ht : w.ofTag? (tagOf k) with
    | some other =>
      -- where tags are distinct there is one to collide with at most
      have hone : ∀ r, r ∈ w.registrations ∧ r.tag = tagOf k ↔ r = other := by
        intro r
        rw [← ofTag?_eq_some_iff hw, ht, Option.some.injEq, eq_comm]
      rw [ht] at heq
      rw [failed?_of_error heq, some_eq_some_iff]
      simp only [hk, ← and_assoc, hone]
      simp
    | none =>
      have hnone : ∀ r ∈ w.registrations, r.tag ≠ tagOf k := by
        simpa using List.find?_eq_none.mp ht
      rw [ht] at heq
      rw [failed?_of_ok heq]
      refine iff_of_false (fun h => by cases h) ?_
      rintro ⟨⟨hreg, -⟩ | ⟨-, r, hr, htag, -⟩, -⟩
      · exact hk hreg
      · exact hnone r hr htag

theorem refusal?_eq_some_iff : w.refusal? k e = some c ↔
    w.RefusesColumn k c ∨ w.isRegistered k ∧ w.RefusesEntity e c := by
  unfold refusal? RefusesColumn RefusesEntity
  cases w.isRegistered k <;> cases w.isAlive e <;> simp [eq_comm]

/-- An action that looks with `refusal?` fails as `refusal?` tells. -/
theorem failed?_iff_of_refusal? {α : Type} {act : Action κ α}
    {r : EStateM.Result WorldError (World κ) α}
    (heq : act w = match w.refusal? k e with
      | some cause => .error cause w
      | none => r)
    (hr : ∃ a t, r = .ok a t) : failed? act w = some (c, w') ↔
      (w.RefusesColumn k c ∨ w.isRegistered k ∧ w.RefusesEntity e c) ∧ w' = w := by
  rw [← refusal?_eq_some_iff]
  cases h : w.refusal? k e with
  | some cause =>
    rw [h] at heq
    rw [failed?_of_error heq, some_eq_some_iff, Option.some.injEq, eq_comm (a := cause)]
  | none =>
    obtain ⟨a, t, hok⟩ := hr
    rw [h] at heq
    rw [failed?_of_ok (heq.trans hok)]
    simp

/-- An action that asks for a column fails if there is none. -/
theorem failed?_iff_of_isRegistered {α : Type} {act : Action κ α}
    (hok : w.isRegistered k → ∃ a t, act w = .ok a t)
    (herror : ¬ w.isRegistered k → act w = .error (.notRegistered (typeName k)) w) :
    failed? act w = some (c, w') ↔ w.RefusesColumn k c ∧ w' = w := by
  unfold RefusesColumn
  by_cases hk : w.isRegistered k
  · obtain ⟨a, t, h⟩ := hok hk
    rw [failed?_of_ok h]
    simp [hk]
  · rw [failed?_of_error (herror hk), some_eq_some_iff]
    simp [hk]

theorem failed?_modifyColumn_iff (f : Column (Value k) → Column (Value k)) :
    failed? (modifyColumn k f) w = some (c, w') ↔ w.RefusesColumn k c ∧ w' = w :=
  failed?_iff_of_isRegistered (fun hk => ⟨_, _, modifyColumn_of_isRegistered hk f⟩)
    fun hk => if_neg hk

/-! ### Entities -/

end World

namespace SlotPool

variable {p : SlotPool} {i : UInt32}

theorem claim_of_live (hi : i ≠ limit) (hl : (p.slotAt i.toNat).live = true) :
    claim i p = .error (.alreadyAlive i) p := by
  simp only [claim, if_neg hi]
  cases hs : p.slots[i.toNat]? with
  | none => simp [slotAt, hs] at hl
  | some s =>
    have hlive : s.live = true := by simpa [slotAt, hs] using hl
    simp only [hlive, ↓reduceIte]

end SlotPool

namespace World

omit [DecidableEq κ]

variable {w w' : World κ} {c : WorldError} {e : Handle}

theorem failed?_spawn_iff : failed? spawn w = some (c, w') ↔
    (w.pool.takeFree = none ∧ SlotPool.limit.toNat ≤ w.pool.slots.size ∧
      c = .handle .exhausted) ∧ w' = w := by
  unfold failed? spawn SlotPool.spawn
  cases w.pool.takeFree with
  | some x => simp
  | none =>
    by_cases hroom : w.pool.slots.size < SlotPool.limit.toNat
    · simp only [if_pos hroom]
      simp [hroom]
    · simp only [if_neg hroom, some_eq_some_iff]
      simp [Nat.le_of_not_lt hroom]

theorem failed?_claim_iff {i : UInt32} :
    failed? (claim i) w = some (c, w') ↔ w.RefusesSlot i c ∧ w' = w := by
  unfold RefusesSlot
  rw [← not_mayClaim_iff]
  by_cases hm : w.mayClaim i
  · have hi := (mayClaim_iff.mp hm).1
    by_cases hl : (w.pool.slotAt i.toNat).live
    · have heq : claim i w = .error (.handle (.alreadyAlive i)) w := by
        simp only [claim, if_pos hm, EStateM.adaptExcept, occupy, SlotPool.claim_of_live hi hl]
      rw [failed?_of_error heq, some_eq_some_iff]
      simp [hm, hl]
    · obtain ⟨e, pool, hc⟩ := SlotPool.exists_claim hi (Bool.eq_false_iff.mpr hl)
      have heq : claim i w = .ok e (w.enter e pool) := by
        simp only [claim, if_pos hm, EStateM.adaptExcept, occupy, hc]
        rfl
      rw [failed?_of_ok heq]
      simp [hm, hl]
  · have heq : claim i w = .error (.handle (.outOfRange i)) w := if_neg hm
    rw [failed?_of_error heq, some_eq_some_iff]
    simp [hm]

theorem failed?_kill_iff : failed? (kill e) w = some (c, w') ↔ w.RefusesEntity e c ∧ w' = w := by
  unfold RefusesEntity failed? kill SlotPool.kill
  by_cases he : w.isAlive e
  · have hp : w.pool.isAlive e = true := he
    rw [if_pos hp]
    simp [he]
  · have hp : ¬ w.pool.isAlive e = true := he
    rw [if_neg hp]
    simp only [some_eq_some_iff]
    simp [he]

/-- Ends an entity as `kill` does, but empties its slot and unbinds its labels
before the pool is asked, which may refuse. -/
def killLate (e : Handle) : Action κ Unit := fun w =>
  if w.isAlive e then
    let bare := { w with
      registrations := w.registrations.map (·.erase e.slot)
      labels := w.labels.unbind e }
    match SlotPool.kill e bare.pool with
    | .error cause _ => .error (.handle cause) bare
    | .ok _ pool =>
      .ok () { bare with pool := pool, journal := bare.journal.recordDestruction e }
  else .error (.handle (.notAlive e)) w

/-- The pool does not refuse then, and the order makes no difference. -/
theorem killLate_eq (e : Handle) : killLate e = (kill e : Action κ Unit) := by
  funext w
  by_cases he : w.isAlive e
  · have hp : w.pool.isAlive e = true := he
    simp only [killLate, kill, SlotPool.kill, if_pos he, if_pos hp]
  · have hp : ¬ w.pool.isAlive e = true := he
    simp only [killLate, kill, SlotPool.kill, if_neg he, if_neg hp]

end World

/-! ### Labels -/

namespace Labels

variable {l : Labels} {e : Handle}

theorem name?_eq_none_iff {id : UInt32} : l.name? id = none ↔ l.size ≤ id.toNat := by
  simp [name?, size]

theorem failed?_bind (id : UInt32) :
    failed? (bind id e) l = if l.name? id = none then some (.unknown id, l) else none := by
  unfold failed? bind
  by_cases hid : id.toNat < l.size
  · have hname : ¬ l.name? id = none := by rwa [name?_eq_none_iff, Nat.not_le]
    rw [if_pos hid, if_neg hname]
  · have hname : l.name? id = none := name?_eq_none_iff.mpr (Nat.le_of_not_lt hid)
    rw [if_neg hid, if_pos hname]

theorem createAndBind_of_isSome {name : String} (h : (l.id? name).isSome) :
    createAndBind name e l = .error (.duplicateName name) l :=
  bind_of_error (create_of_isSome h)

/-- A label that is made and bound is made first, and the binding is not refused. -/
theorem exists_createAndBind {name : String} (h : ¬ (l.id? name).isSome) (e : Handle) :
    ∃ l', bind (UInt32.ofNat l.size) e ⟨l.entries.push ⟨name, none⟩⟩ = .ok () l' ∧
      createAndBind name e l = .ok (UInt32.ofNat l.size) l' := by
  have hlt : (UInt32.ofNat l.size).toNat < Labels.size ⟨l.entries.push ⟨name, none⟩⟩ := by
    have hle : (UInt32.ofNat l.size).toNat ≤ l.size := Nat.mod_le _ _
    have hsize : Labels.size ⟨l.entries.push ⟨name, none⟩⟩ = l.size + 1 := Array.size_push _
    omega
  obtain ⟨l', hb⟩ : ∃ l', bind (UInt32.ofNat l.size) e ⟨l.entries.push ⟨name, none⟩⟩ = .ok () l' :=
    ⟨_, if_pos hlt⟩
  exact ⟨l', hb, (bind_of_ok (create_of_not_isSome h)).trans (bind_of_ok hb)⟩

theorem failed?_createAndBind (name : String) : failed? (createAndBind name e) l =
    if (l.id? name).isSome then some (.duplicateName name, l) else none := by
  by_cases hn : (l.id? name).isSome
  · rw [if_pos hn, failed?_of_error (createAndBind_of_isSome hn)]
  · obtain ⟨l', -, hc⟩ := exists_createAndBind hn e
    rw [if_neg hn, failed?_of_ok hc]

end Labels

namespace World

section OnLabels

omit [DecidableEq κ]

variable {w w' : World κ} {c : WorldError} {e : Handle}

/-- An operation on labels that fails on one ground only and leaves them as they
were then, asked for a live entity. -/
theorem failed?_onLabels_iff {α : Type} {act : EStateM LabelError Labels α} {p : Prop} [Decidable p]
    {cause : LabelError} (h : failed? act w.labels = if p then some (cause, w.labels) else none) :
    failed? (onLabels e act) w = some (c, w') ↔
      (w.RefusesEntity e c ∨ w.isAlive e ∧ p ∧ c = .label cause) ∧ w' = w := by
  have heq : failed? (onLabels e act) w =
      if w.isAlive e then
        (failed? act w.labels).map fun x => (.label x.1, { w with labels := x.2 })
      else some (.handle (.notAlive e), w) := by
    unfold failed? onLabels
    by_cases he : w.isAlive e
    · rw [if_pos he, if_pos he]
      cases act w.labels <;> rfl
    · rw [if_neg he, if_neg he]
  unfold RefusesEntity
  rw [heq, h]
  by_cases he : w.isAlive e
  · by_cases hp : p
    · rw [if_pos he, if_pos hp, Option.map_some, some_eq_some_iff]
      simp [he, hp]
    · rw [if_pos he, if_neg hp]
      simp [he, hp]
  · rw [if_neg he, some_eq_some_iff]
    simp [he]

end OnLabels

/-! ### All operations -/

variable {w w' : World κ} {c : WorldError}

/-- An operation fails on the grounds for refusing it and on no others, and then it
leaves the world as it was. -/
theorem WellFormed.failure?_eq_some_iff (hw : w.WellFormed) (op : Operation κ) :
    op.failure? w = some (c, w') ↔ w.Refusal op c ∧ w' = w := by
  cases op with
  | register k => exact failed?_registerWith_iff hw.tagsDistinct none
  | registerSynced k codec => exact failed?_registerWith_iff hw.tagsDistinct (some codec)
  | add k e v => exact failed?_iff_of_refusal? (add_eq k e v w) ⟨_, _, rfl⟩
  | emplace k e make => exact failed?_iff_of_refusal? (emplace_eq k e make w) ⟨_, _, rfl⟩
  | remove k e => exact failed?_iff_of_refusal? (remove_eq k e w) ⟨_, _, rfl⟩
  | markDirty k e =>
    refine failed?_iff_of_refusal? (markDirty_eq k e w) ?_
    split
    · exact ⟨_, _, rfl⟩
    · exact ⟨_, _, rfl⟩
  | edit k e f =>
    exact failed?_iff_of_isRegistered (fun hk => ⟨_, _, (edit_eq k e f w).trans (if_pos hk)⟩)
      fun hk => (edit_eq k e f w).trans (if_neg hk)
  | editAt k i f => exact failed?_modifyColumn_iff _
  | editAll k f => exact failed?_modifyColumn_iff _
  | spawn => exact failed?_spawn_iff
  | claim i => exact failed?_claim_iff
  | kill e => exact failed?_kill_iff
  | bindLabel id e => exact failed?_onLabels_iff (Labels.failed?_bind id)
  | createLabel name e => exact failed?_onLabels_iff (Labels.failed?_createAndBind name)
  | nameLabel | unbindLabels | restore | setVersion | prune | forget =>
    exact iff_of_false (fun h => by cases h) fun h => h.1

/-- **What fails changes nothing.** In a reachable world an operation fails exactly
on the grounds that `Refusal` lists, with the cause that goes with them, and
leaves the world as it was. A component that is refused is not made: the
outcome is the same whatever would make it. -/
theorem Reachable.refuses (h : w.Reachable) :
    (∀ op c w', op.failure? w = some (c, w') ↔ w.Refusal op c ∧ w' = w) ∧
    ∀ k e make c w', emplace k e make w = .error c w' →
      ∀ make', emplace k e make' w = .error c w' := by
  refine ⟨fun op c w' => h.wellFormed.failure?_eq_some_iff op, fun k e make c w' hfail make' => ?_⟩
  rw [emplace_eq] at hfail ⊢
  cases hr : w.refusal? k e with
  | some cause =>
    rw [hr] at hfail
    exact hfail
  | none =>
    rw [hr] at hfail
    cases hfail

/-- In the world whose particle is gone, it is not killed again, and no particle is
made for it. -/
theorem refuses_emptied :
    (Operation.kill ⟨0, 0⟩).failure? emptied = some (.handle (.notAlive ⟨0, 0⟩), emptied) ∧
    ∀ make, emplace (.particle : Stocked Empty) ⟨0, 0⟩ make emptied =
      .error (.handle (.notAlive ⟨0, 0⟩)) emptied := by
  have h := reachable_emptied.refuses
  have hdead : ¬ emptied.isAlive ⟨0, 0⟩ := by decide +kernel
  have hfail : emplace (.particle : Stocked Empty) ⟨0, 0⟩ (fun _ => none) emptied =
      .error (.handle (.notAlive ⟨0, 0⟩)) emptied := rfl
  exact ⟨(h.1 _ _ _).mpr ⟨⟨hdead, rfl⟩, rfl⟩, h.2 _ _ _ _ _ hfail⟩

end World
end EntityWorld
