/-
# Sessions

A program that keeps no handles names entities by number, in the order in which
they came. What it does next may depend on all that it was told so far
(`Program`), and what it is told has no handle in it (`Answer`): an entity is
named by its number, and that somebody is not alive is said without the handle.

A session is a world with the chronicle that led to it, which gives the numbers
their meaning. Everything that a session does is an operation of the world, so
that its chronicle goes on to tell of the slots (`Session.Sound`) as long as no
slot runs out of generations.

Key definitions: `Deed`, `Instruction`, `Answer`, `Program`, `Session.perform`,
`Session.play`, `Session.Sound`, `World.Known`.
Key theorems: `Session.Sound.perform`, `World.begun_of_known`.
-/
import EntityWorld.Proofs.Records
import Mathlib.Tactic

namespace EntityWorld

/-! ### Programs -/

/-- What may be done with an entity or asked about it. -/
inductive Deed (κ : Type) [Family κ] where
  | kill
  | add (k : κ) (v : Value k)
  | emplace (k : κ) (make : Unit → Option (Value k))
  | remove (k : κ)
  | markDirty (k : κ)
  | get (k : κ)
  | has (k : κ)
  | typesOf
  | isAlive
  | bindLabel (id : UInt32)
  | createLabel (name : String)
  | labelOf

/-- What a program is told. -/
inductive Answer (κ : Type) [Family κ] where
  | done
  | value (k : κ) (o : Option (Value k))
  | flag (b : Bool)
  | tags (ts : List TypeTag)
  | label (id : Option UInt32)
  /-- The number of an entity. -/
  | entity (number : Option Nat)
  /-- The entity in question is not alive. -/
  | notAlive
  | refused (cause : WorldError)
  /-- No entity has the number. -/
  | nobody

inductive Instruction (κ : Type) [Family κ] where
  | spawn
  | visit (number : Nat) (d : Deed κ)
  /-- Which entity a label is bound to. -/
  | target (id : UInt32)

/-- What to do next after some answers. -/
abbrev Program (κ : Type) [Family κ] := List (Answer κ) → Instruction κ

variable {κ : Type} [Family κ]

/-- The cause of a failure, without the handle of the entity in question. -/
def complaint (e : Handle) (c : WorldError) : Answer κ :=
  if c = .handle (.notAlive e) then .notAlive else .refused c

theorem complaint_notAlive (e : Handle) :
    (complaint e (.handle (.notAlive e)) : Answer κ) = .notAlive := if_pos rfl

variable [DecidableEq κ]

namespace Deed

/-- The deed as an action on the entity of a handle. -/
def act (e : Handle) : Deed κ → World.Action κ (Answer κ)
  | kill => (fun _ => .done) <$> World.kill e
  | add k v => (fun _ => .done) <$> World.add k e v
  | emplace k make => .value k <$> World.emplace k e make
  | remove k => .value k <$> World.remove k e
  | markDirty k => .flag <$> World.markDirty k e
  | get k => .value k <$> World.get k e
  | has k => (.flag ·.isSome) <$> World.get k e
  | typesOf => (.tags <| World.typesOf · e) <$> EStateM.get
  | isAlive => (.flag <| World.isAlive · e) <$> EStateM.get
  | bindLabel id => (fun _ => .done) <$> World.bindLabel id e
  | createLabel name => (.label ∘ some) <$> World.createLabel name e
  | labelOf => (fun w => .label (w.labels.labelOf? e)) <$> EStateM.get

def answer (e : Handle) (d : Deed κ) (w : World κ) : Answer κ :=
  match d.act e w with
  | .ok a _ => a
  | .error c _ => complaint e c

/-- Who goes by a deed. -/
def events (e : Handle) : Deed κ → World κ → List Event
  | kill, w => (Operation.kill e).events w
  | _, _ => []

end Deed

/-! ### Sessions -/

/-- A world and who came and went in it. -/
structure Session (κ : Type) [Family κ] where
  world : World κ
  history : List Event := []

namespace Session

/-- The handles by number. -/
def handles (s : Session κ) : List Handle := issued s.history

/-- What a program is told of an instruction, and the session after it. -/
def perform (s : Session κ) : Instruction κ → Answer κ × Session κ
  | .spawn =>
    (match World.spawn s.world with
      | .ok _ _ => .entity s.handles.length
      | .error c _ => .refused c,
      ⟨after World.spawn s.world, s.history ++ Operation.spawn.events s.world⟩)
  | .visit j d =>
    match s.handles[j]? with
    | none => (.nobody, s)
    | some e => (d.answer e s.world, ⟨after (d.act e) s.world, s.history ++ d.events e s.world⟩)
  | .target id => (.entity ((s.world.labels.target? id).map fun e => s.handles.idxOf e), s)

/-- The answers that a program gets to its first instructions, and the session after
them. -/
def play (next : Program κ) (s : Session κ) : Nat → List (Answer κ) × Session κ
  | 0 => ([], s)
  | n + 1 =>
    let (answers, t) := play next s n
    let (a, u) := t.perform (next answers)
    (answers ++ [a], u)

/-- The numbers of the living. -/
def living (s : Session κ) : List Nat :=
  (List.range s.handles.length).filter fun j => s.handles[j]?.any s.world.isAlive

end Session

/-! ### A session is a run -/

theorem after_map {ε σ α β : Type} (f : α → β) (act : EStateM ε σ α) (s : σ) :
    after (f <$> act) s = after act s := by
  simp only [after, Functor.map, EStateM.map]
  cases act s <;> rfl

theorem World.after_get (k : κ) (e : Handle) (w : World κ) : after (World.get k e) w = w := by
  by_cases hk : w.isRegistered k
  · exact after_of_ok ((get_eq k e w).trans (if_pos hk))
  · exact after_of_error ((get_eq k e w).trans (if_neg hk))

/-- Nobody comes by a deed. -/
theorem Deed.issued_events (d : Deed κ) (e : Handle) (w : World κ) : issued (d.events e w) = [] := by
  cases d with
  | kill =>
    simp only [events, Operation.events]
    split <;> rfl
  | _ => rfl

/-- A deed is an operation, or nothing happens. -/
theorem Deed.after_act (d : Deed κ) (e : Handle) (w : World κ) :
    after (d.act e) w = w ∧ d.events e w = [] ∨
      ∃ op : Operation κ, after (d.act e) w = op.apply w ∧ d.events e w = op.events w := by
  cases d with
  | kill => exact Or.inr ⟨.kill e, after_map _ _ w, rfl⟩
  | add k v => exact Or.inr ⟨.add k e v, after_map _ _ w, rfl⟩
  | emplace k make => exact Or.inr ⟨.emplace k e make, after_map _ _ w, rfl⟩
  | remove k => exact Or.inr ⟨.remove k e, after_map _ _ w, rfl⟩
  | markDirty k => exact Or.inr ⟨.markDirty k e, after_map _ _ w, rfl⟩
  | bindLabel id => exact Or.inr ⟨.bindLabel id e, after_map _ _ w, rfl⟩
  | createLabel name => exact Or.inr ⟨.createLabel name e, after_map _ _ w, rfl⟩
  | get k => exact Or.inl ⟨(after_map _ _ w).trans (World.after_get k e w), rfl⟩
  | has k => exact Or.inl ⟨(after_map _ _ w).trans (World.after_get k e w), rfl⟩
  | typesOf | isAlive | labelOf => exact Or.inl ⟨rfl, rfl⟩

namespace Session

/-- The session after an operation. -/
def advance (s : Session κ) (op : Operation κ) : Session κ :=
  ⟨op.apply s.world, s.history ++ op.events s.world⟩

theorem perform_spawn_of_ok {s : Session κ} {e : Handle} {pool : SlotPool}
    (h : SlotPool.spawn s.world.pool = .ok e pool) : s.perform .spawn =
      (.entity s.handles.length, ⟨s.world.enter e pool, s.history ++ [.begun e]⟩) := by
  have hs := World.spawn_of_ok h
  simp only [perform, Operation.events, given_of_ok hs, after_of_ok hs, hs]
  rfl

theorem perform_spawn_of_error {s : Session κ} {c : HandleError} {pool : SlotPool}
    (h : SlotPool.spawn s.world.pool = .error c pool) :
    s.perform .spawn = (.refused (.handle c), s) := by
  have hs := World.spawn_of_error h
  simp only [perform, Operation.events, given_of_error hs, after_of_error hs, hs, List.map_nil,
    List.append_nil]

theorem perform_of_nobody {s : Session κ} {j : Nat} (h : s.handles[j]? = none) (d : Deed κ) :
    s.perform (.visit j d) = (.nobody, s) := by
  simp only [perform, h]

theorem perform_of_handle {s : Session κ} {j : Nat} {e : Handle} (h : s.handles[j]? = some e)
    (d : Deed κ) : s.perform (.visit j d) =
      (d.answer e s.world, ⟨after (d.act e) s.world, s.history ++ d.events e s.world⟩) := by
  simp only [perform, h]

theorem perform_eq (s : Session κ) (i : Instruction κ) :
    (s.perform i).2 = s ∨ ∃ op, (s.perform i).2 = s.advance op := by
  cases i with
  | spawn => exact Or.inr ⟨.spawn, rfl⟩
  | target id => exact Or.inl rfl
  | visit j d =>
    cases h : s.handles[j]? with
    | none => exact Or.inl (congrArg Prod.snd (perform_of_nobody h d))
    | some e =>
      rw [perform_of_handle h]
      rcases d.after_act e s.world with ⟨hw, hxs⟩ | ⟨op, hw, hxs⟩
      · left
        rw [hw, hxs, List.append_nil]
      · right
        rw [hw, hxs]
        exact ⟨op, rfl⟩

/-- What a session has seen stays in its history. -/
theorem withinGenerations_of_perform {s : Session κ} {i : Instruction κ}
    (h : WithinGenerations (s.perform i).2.history) : WithinGenerations s.history := by
  rcases s.perform_eq i with heq | ⟨op, heq⟩
  · rwa [heq] at h
  · rw [heq] at h
    exact h.of_append

/-- The world is in order, and its slots are as the history tells. -/
structure Sound (s : Session κ) : Prop where
  wellFormed : s.world.WellFormed
  chronicled : s.world.pool.Chronicled s.history

omit [DecidableEq κ] in
/-- A handle has one number. -/
theorem Sound.eq_of_handles {s : Session κ} (h : s.Sound) {i j : Nat} {e : Handle}
    (hi : s.handles[i]? = some e) (hj : s.handles[j]? = some e) : i = j :=
  (List.getElem?_inj (List.getElem?_eq_some_iff.mp hi).1 h.chronicled.issued_nodup).mp
    (hi.trans hj.symm)

omit [DecidableEq κ] in
theorem Sound.idxOf_eq {s : Session κ} (h : s.Sound) {j : Nat} {e : Handle}
    (hj : s.handles[j]? = some e) : s.handles.idxOf e = j := by
  obtain ⟨hlt, rfl⟩ := List.getElem?_eq_some_iff.mp hj
  exact h.chronicled.issued_nodup.idxOf_getElem j hlt

theorem Sound.perform {s : Session κ} (h : s.Sound) {i : Instruction κ}
    (hb : WithinGenerations (s.perform i).2.history) : (s.perform i).2.Sound := by
  rcases s.perform_eq i with heq | ⟨op, heq⟩
  · rwa [heq]
  · rw [heq] at hb ⊢
    exact ⟨h.wellFormed.apply op, h.chronicled.operate op hb⟩

end Session

/-! ### Who is known came once -/

namespace World

variable {w w' : World κ} {e : Handle}

omit [DecidableEq κ] in
/-- Somebody is alive or was, as far as the journal tells. -/
def Known (w : World κ) (e : Handle) : Prop :=
  w.isAlive e ∨ (w.journal.createdAt? e).isSome ∨ (w.journal.destroyedAt? e).isSome

omit [DecidableEq κ] in
theorem eq_or_known_of_enter {pool : SlotPool} {a : Handle} (ha : w.pool.Enters a pool)
    (h : (w.enter a pool).Known e) : e = a ∨ w.Known e := by
  rcases h with h | h | h
  · exact (ha.isAlive_iff.mp h).imp_right Or.inl
  · change ((w.journal.recordCreation a).createdAt? e).isSome at h
    rw [Journal.createdAt?_recordCreation, isSome_ite] at h
    exact h.imp_right fun h => Or.inr (Or.inl h)
  · exact Or.inr (Or.inr (Or.inr h))

omit [DecidableEq κ] in
theorem known_of_leave {pool : SlotPool} {a : Handle} (ha : w.pool.Leaves a pool)
    (h : (w.leave a pool).Known e) : w.Known e := by
  rcases h with h | h | h
  · exact Or.inl (ha.isAlive_iff.mp h).2
  · exact Or.inr (Or.inl h)
  · change ((w.journal.recordDestruction a).destroyedAt? e).isSome at h
    rw [Journal.destroyedAt?_recordDestruction, isSome_ite] at h
    rcases h with rfl | h
    · exact Or.inl ha.alive
    · exact Or.inr (Or.inr h)

end World

/-- Whom an operation makes known comes by it. -/
theorem Outcome.known {w w' : World κ} {op : Operation κ} {xs : List Event} {e : Handle}
    (h : Outcome w op xs w') (hw : w.pool.WellFormed) (he : w'.Known e) :
    w.Known e ∨ .begun e ∈ xs := by
  cases h with
  | spawn hs =>
    have hold := World.eq_or_known_of_enter (SlotPool.enters_of_spawn hw hs) he
    exact hold.symm.imp_right fun h => List.mem_singleton.mpr (congrArg _ h)
  | claim _ hc =>
    have hold := World.eq_or_known_of_enter (SlotPool.enters_of_claim hw hc).1 he
    exact hold.symm.imp_right fun h => List.mem_singleton.mpr (congrArg _ h)
  | kill hk => exact Or.inl (World.known_of_leave (SlotPool.leaves_of_kill hk) he)
  | restore hr =>
    have hall := World.replay_induction
      (motive := fun es u => ∀ e, u.Known e → w.Known e ∨ e ∈ es) hw hr []
      (fun _ h => Or.inl h)
      (fun {es u a pool} hu ha _ e h => by
        rcases World.eq_or_known_of_enter ha h with rfl | h
        · exact Or.inr (by simp)
        · exact (hu e h).imp_right (List.mem_append_left _))
      fun _ hu _ _ => hu
    exact (hall e he).imp_right fun h => List.mem_map.mpr ⟨e, by simpa using h, rfl⟩
  | remove =>
    refine Or.inl ?_
    simp only [World.discard, World.Known] at he
    split at he <;> exact he
  | prune =>
    refine Or.inl (he.imp_right (Or.imp (fun h => ?_) fun h => ?_))
    · exact Option.isSome_of_isSome_filter _ _ (Journal.createdAt?_prune _ ▸ h)
    · exact Option.isSome_of_isSome_filter _ _ (Journal.destroyedAt?_prune _ ▸ h)
  | forget =>
    exact Or.inl (he.imp_right (Or.imp Journal.isSome_createdAt?_of_forget
      Journal.isSome_destroyedAt?_of_forget))
  | _ => exact Or.inl he

namespace World

/-- In a run from the start, everybody known came. -/
theorem begun_of_known {s : Settings} {w : World κ} (hs : ofSettings? s = some w)
    (ops : List (Operation κ)) {e : Handle} (he : (w.run ops).Known e) :
    .begun e ∈ w.chronicle (ops.map .operate) := by
  have hrun : ∀ (ops : List (Operation κ)) {u : World κ}, u.WellFormed → (u.run ops).Known e →
      u.Known e ∨ .begun e ∈ u.chronicle (ops.map .operate) := by
    intro ops
    induction ops with
    | nil => exact fun _ h => Or.inl h
    | cons op ops ih =>
      intro u hu h
      rw [List.map_cons, chronicle, List.mem_append]
      rcases ih (hu.apply op) h with h | h
      · exact ((op.outcome_apply hu.pool).known hu.pool h).imp_right Or.inl
      · exact Or.inr (Or.inr h)
  refine (hrun ops (wellFormed_of_ofSettings? hs) he).resolve_left fun h => ?_
  rw [eq_of_ofSettings? hs] at h
  simp [Known, isAlive, SlotPool.isAlive, Journal.createdAt?, Journal.destroyedAt?] at h

end World
end EntityWorld
