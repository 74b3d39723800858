/-
# What an operation can change

Whatever an operation does to a world, it does in elementary changes: an entity
comes (`enter`) or goes (`leave`), a component is written, discarded, stamped or
reworked in place, a kind is enrolled or given a codec, labels are bound anew,
the journal's clock is set, its stamps are dropped. `Change op` is one of them,
labelled with the operation that makes it, and what each of them keeps, some of
them in a row keep.

Before that, each action of `World` is put in closed form: when it refuses and
with what cause (`refusal?`), and the world that it leaves otherwise.

Key definitions: `World.refusal?`, `World.enter`, `World.leave`, `World.write`,
`World.discard`, `World.stamp`, `World.rework`, `Change`.
Key theorems: `World.add_eq` and its like for the other actions,
`Change.keeps_row`.
-/
import EntityWorld.Proofs.Occupancy
import EntityWorld.Proofs.Operations
import EntityWorld.Proofs.Registrations
import Mathlib.Tactic

namespace EntityWorld

variable {κ : Type} [Family κ]

namespace World

/-! ### Elementary changes -/

section Elementary

variable (w : World κ)

/-- An entity comes to live in the pool. -/
def enter (e : Handle) (pool : SlotPool) : World κ :=
  { w with pool := pool, journal := w.journal.recordCreation e }

/-- An entity goes, and with it its components and the bindings of its labels. -/
def leave (e : Handle) (pool : SlotPool) : World κ :=
  { w with
    pool := pool
    registrations := w.registrations.map (·.erase e.slot)
    labels := w.labels.unbind e
    journal := w.journal.recordDestruction e }

/-- A kind gets its column. -/
def enroll (k : κ) (codec : Option (Codec (Value k))) : World κ :=
  { w with registrations := w.registrations ++ [{ kind := k, codec := codec }] }

variable [DecidableEq κ]

/-- A component is written, or its slot emptied by a write that came to nothing. -/
def write (k : κ) (e : Handle) (o : Option (Value k)) : World κ :=
  { w with
    registrations := w.registrations.map (·.modifyColumn k (·.put e.slot o))
    journal := w.journal.recordUpdate e (tagOf k) }

/-- A component is taken away, if it is there. -/
def discard (k : κ) (e : Handle) : World κ :=
  { w with
    registrations := w.registrations.map (·.modifyColumn k (·.erase e.slot))
    journal := if (w.get? k e).isSome then w.journal.recordRemoval e (tagOf k) else w.journal }

/-- A component is recorded as written. -/
def stamp (k : κ) (e : Handle) : World κ :=
  { w with journal := w.journal.recordUpdate e (tagOf k) }

/-- A column changes and the journal does not hear of it. -/
def rework (k : κ) (f : Column (Value k) → Column (Value k)) : World κ :=
  { w with registrations := w.registrations.map (·.modifyColumn k f) }

/-- A kind is given a codec if it has none. -/
def offer (k : κ) (codec : Option (Codec (Value k))) : World κ :=
  { w with registrations := w.registrations.map (·.offerCodec k codec) }

/-- Why a write to a component is refused, if it is: the kind comes before the entity. -/
def refusal? (k : κ) (e : Handle) : Option WorldError :=
  if !w.isRegistered k then some (.notRegistered (typeName k))
  else if !w.isAlive e then some (.handle (.notAlive e))
  else none

end Elementary

/-! ### The actions in closed form -/

section Entities

variable {w : World κ} {e : Handle} {pool : SlotPool} {cause : HandleError}

theorem spawn_of_ok (h : SlotPool.spawn w.pool = .ok e pool) : spawn w = .ok e (w.enter e pool) := by
  unfold spawn
  rw [h]
  rfl

theorem spawn_of_error (h : SlotPool.spawn w.pool = .error cause pool) :
    spawn w = .error (.handle cause) w := by
  unfold spawn
  rw [h]

theorem kill_of_ok (h : SlotPool.kill e w.pool = .ok () pool) :
    kill e w = .ok () (w.leave e pool) := by
  unfold kill
  rw [h]
  rfl

theorem kill_of_error (h : SlotPool.kill e w.pool = .error cause pool) :
    kill e w = .error (.handle cause) w := by
  unfold kill
  rw [h]

end Entities

variable [DecidableEq κ] {w : World κ} {k : κ} {e : Handle}

theorem refusal?_eq_none_iff : w.refusal? k e = none ↔ w.isRegistered k ∧ w.isAlive e := by
  unfold refusal?
  cases w.isRegistered k <;> cases w.isAlive e <;> simp

theorem isRegistered_iff_column? : w.isRegistered k ↔ (w.column? k).isSome := by
  rw [isRegistered_iff, column?, List.findSome?_isSome_iff]
  refine exists_congr fun r => and_congr_right fun _ => ?_
  unfold Registration.column?
  split <;> simp_all

theorem get?_eq_none_of_not_isRegistered (h : ¬ w.isRegistered k) : w.get? k e = none := by
  rw [isRegistered_iff_column?, Option.not_isSome_iff_eq_none] at h
  unfold get?
  rw [h]
  simp

theorem checkAccess_eq (k : κ) (e : Handle) (w : World κ) : checkAccess k e w =
    match w.refusal? k e with
    | some cause => .error cause w
    | none => .ok () w := by
  unfold checkAccess refusal?
  cases w.isRegistered k <;> cases w.isAlive e <;> rfl

omit [DecidableEq κ] in
theorem recordUpdate_eq (k : κ) (e : Handle) (w : World κ) :
    recordUpdate k e w = .ok () (w.stamp k e) := rfl

theorem modifyColumn_of_isRegistered (h : w.isRegistered k)
    (f : Column (Value k) → Column (Value k)) : modifyColumn k f w = .ok () (w.rework k f) :=
  if_pos h

theorem add_eq (k : κ) (e : Handle) (v : Value k) (w : World κ) : add k e v w =
    match w.refusal? k e with
    | some cause => .error cause w
    | none => .ok () (w.write k e (some v)) := by
  simp only [add, bind, EStateM.bind, checkAccess_eq]
  cases h : w.refusal? k e with
  | some cause => rfl
  | none =>
    have hk : (w.stamp k e).isRegistered k := (refusal?_eq_none_iff.mp h).1
    exact modifyColumn_of_isRegistered hk _

theorem emplace_eq (k : κ) (e : Handle) (make : Unit → Option (Value k)) (w : World κ) :
    emplace k e make w =
      match w.refusal? k e with
      | some cause => .error cause w
      | none => .ok (make ()) (w.write k e (make ())) := by
  simp only [emplace, bind, EStateM.bind, checkAccess_eq]
  cases h : w.refusal? k e with
  | some cause => rfl
  | none =>
    have hk : (w.stamp k e).isRegistered k := (refusal?_eq_none_iff.mp h).1
    have hm := modifyColumn_of_isRegistered hk (·.put e.slot (make ()))
    simp only [recordUpdate_eq, hm]
    rfl

theorem remove_eq (k : κ) (e : Handle) (w : World κ) : remove k e w =
    match w.refusal? k e with
    | some cause => .error cause w
    | none => .ok (w.get? k e) (w.discard k e) := by
  simp only [remove, bind, EStateM.bind, checkAccess_eq]
  cases h : w.refusal? k e with
  | some cause => rfl
  | none =>
    have hg : (EStateM.get : Action κ (World κ)) w = .ok w w := rfl
    have hm := modifyColumn_of_isRegistered (refusal?_eq_none_iff.mp h).1 (·.erase e.slot)
    simp only [hg, hm, discard]
    cases (w.get? k e).isSome <;> rfl

theorem markDirty_eq (k : κ) (e : Handle) (w : World κ) : markDirty k e w =
    match w.refusal? k e with
    | some cause => .error cause w
    | none => if (w.get? k e).isSome then .ok true (w.stamp k e) else .ok false w := by
  simp only [markDirty, bind, EStateM.bind, checkAccess_eq]
  cases h : w.refusal? k e with
  | some cause => rfl
  | none =>
    have hg : (EStateM.get : Action κ (World κ)) w = .ok w w := rfl
    simp only [hg]
    cases (w.get? k e).isSome <;> rfl

theorem get_eq (k : κ) (e : Handle) (w : World κ) : get k e w =
    if w.isRegistered k then .ok (w.get? k e) w
    else .error (.notRegistered (typeName k)) w := by
  simp only [get, column, bind, EStateM.bind]
  by_cases hk : w.isRegistered k
  · obtain ⟨c, hc⟩ := Option.isSome_iff_exists.mp (isRegistered_iff_column?.mp hk)
    rw [if_pos hk, hc]
    rfl
  · have hc : w.column? k = none := by simpa [isRegistered_iff_column?] using hk
    rw [if_neg hk, hc]

theorem edit_eq (k : κ) (e : Handle) (f : Value k → Value k) (w : World κ) : edit k e f w =
    if w.isRegistered k then
      .ok (w.get? k e) (if (w.get? k e).isSome then w.rework k (·.modify e.slot f) else w)
    else .error (.notRegistered (typeName k)) w := by
  simp only [edit, bind, EStateM.bind, get_eq]
  by_cases hk : w.isRegistered k
  · have hm := modifyColumn_of_isRegistered hk (·.modify e.slot f)
    rw [if_pos hk, if_pos hk]
    cases h : (w.get? k e).isSome
    · simp only [h]
      rfl
    · simp only [h, ↓reduceIte, EStateM.bind, hm]
      rfl
  · rw [if_neg hk, if_neg hk]

theorem offer_none : w.offer k none = w := by
  have h : ∀ r ∈ w.registrations, r.offerCodec k none = id r := by
    intro r _
    obtain ⟨k', c, own⟩ := r
    unfold Registration.offerCodec
    split
    · next hk =>
      subst hk
      simp
    · rfl
  unfold offer
  rw [List.map_congr_left h, List.map_id]

/-- Registering a kind anew offers it a codec, under a rule that accepts this. -/
theorem registerWith_of_isRegistered (h : w.isRegistered k) (codec : Option (Codec (Value k))) :
    registerWith k codec w =
      match w.settings.repeats with
      | .reject => .error (.alreadyRegistered (typeName k)) w
      | .accept => .ok () (w.offer k codec) := if_pos h

/-- Registering a new kind needs its tag to be free. -/
theorem registerWith_of_not_isRegistered (h : ¬ w.isRegistered k)
    (codec : Option (Codec (Value k))) :
    registerWith k codec w =
      match w.ofTag? (tagOf k) with
      | some other => .error (.tagCollision (typeName k) other.name (tagOf k)) w
      | none => .ok () (w.enroll k codec) := if_neg h

end World

namespace Labels

/-- Whether some label is bound to an entity. -/
def Binds (l : Labels) (e : Handle) : Prop := ∃ x ∈ l.entries, x.target = some e

variable {l : Labels} {e e' : Handle}

theorem labelOf?_eq_none_iff : l.labelOf? e = none ↔ ¬ l.Binds e := by
  simp [labelOf?, Binds]

theorem create_of_isSome {name : String} (h : (l.id? name).isSome) :
    create name l = .error (.duplicateName name) l := if_pos h

theorem create_of_not_isSome {name : String} (h : ¬ (l.id? name).isSome) :
    create name l = .ok (UInt32.ofNat l.size) ⟨l.entries.push ⟨name, none⟩⟩ := if_neg h

theorem binds_unbind : (l.unbind e).Binds e' ↔ l.Binds e' ∧ e' ≠ e := by
  simp only [Binds, unbind, Array.mem_map]
  constructor
  · rintro ⟨_, ⟨x, hx, rfl⟩, ht⟩
    split at ht
    · cases ht
    · next hne => exact ⟨⟨x, hx, ht⟩, fun he => hne (he ▸ ht)⟩
  · rintro ⟨⟨x, hx, ht⟩, hne⟩
    have hkeep : x.target ≠ some e := fun h => hne (Option.some.inj (ht.symm.trans h))
    exact ⟨x, ⟨x, hx, if_neg hkeep⟩, ht⟩

end Labels

/-! ### Changes -/

/-- An elementary change, of those that an operation makes. -/
inductive Change [DecidableEq κ] : Operation κ → World κ → World κ → Prop where
  | enter {op : Operation κ} {w : World κ} {e : Handle} {pool : SlotPool} :
      w.pool.Enters e pool → pool.WellFormed → Change op w (w.enter e pool)
  | leave {w : World κ} {e : Handle} {pool : SlotPool} :
      w.pool.Leaves e pool → pool.WellFormed → Change (.kill e) w (w.leave e pool)
  | write {op : Operation κ} {w : World κ} {k : κ} {e : Handle} (o : Option (Value k)) :
      w.isRegistered k → w.isAlive e → Change op w (w.write k e o)
  | discard {w : World κ} {k : κ} {e : Handle} :
      w.isRegistered k → w.isAlive e → Change (.remove k e) w (w.discard k e)
  | stamp {w : World κ} {k : κ} {e : Handle} :
      w.isRegistered k → (w.get? k e).isSome → Change (.markDirty k e) w (w.stamp k e)
  | edit {w : World κ} {k : κ} {e : Handle} (f : Value k → Value k) :
      w.isRegistered k → (w.get? k e).isSome →
        Change (.edit k e f) w (w.rework k (·.modify e.slot f))
  | editAt {w : World κ} {k : κ} (i : Nat) (f : Value k → Value k) :
      Change (.editAt k i f) w (w.rework k (·.modify i f))
  | editAll {w : World κ} {k : κ} (f : Value k → Value k) :
      Change (.editAll k f) w (w.rework k (·.map f))
  | enroll {op : Operation κ} {w : World κ} {k : κ} (codec : Option (Codec (Value k))) :
      w.ofTag? (tagOf k) = none → Change op w (w.enroll k codec)
  | offer {w : World κ} {k : κ} (codec : Codec (Value k)) :
      Change (.registerSynced k codec) w (w.offer k (some codec))
  | relabel {op : Operation κ} {w : World κ} {l : Labels} :
      (∀ e, l.Binds e → w.labels.Binds e ∨ w.isAlive e) →
        Change op w { w with labels := l }
  | setVersion {w : World κ} (v : Nat) : Change (.setVersion v) w (w.setVersion v)
  | prune {w : World κ} (v : Nat) : Change (.prune v) w (w.prune v)
  | forget {w : World κ} (x : Journal.Key) :
      Change (.forget x) w { w with journal := w.journal.forget x }

namespace Change

variable [DecidableEq κ] {w w' : World κ} {op : Operation κ}

/-- The changes of an operation, in a row. -/
abbrev Row (op : Operation κ) : World κ → World κ → Prop := Relation.ReflTransGen (Change op)

theorem pool_wellFormed (h : Change op w w') (hw : w.pool.WellFormed) : w'.pool.WellFormed := by
  cases h with
  | enter _ hp => exact hp
  | leave _ hp => exact hp
  | _ => exact hw

/-- What each change keeps, changes in a row keep. -/
theorem keeps_row {I : World κ → Prop} (hI : ∀ {w w'}, Change op w w' → I w → I w')
    (h : Row op w w') (hw : I w) : I w' := by
  induction h with
  | refl => exact hw
  | tail _ hc ih => exact hI hc ih

/-! ### Labels -/

/-- An operation on labels that binds to `e` at most. -/
def BindsOnly {α : Type} (e : Handle) (act : EStateM LabelError Labels α) : Prop :=
  ∀ l e', (after act l).Binds e' → l.Binds e' ∨ e' = e

theorem binds_create {name : String} {l : Labels} {e : Handle}
    (h : (after (Labels.create name) l).Binds e) : l.Binds e := by
  by_cases hn : (l.id? name).isSome
  · rwa [after_of_error (Labels.create_of_isSome hn)] at h
  · rw [after_of_ok (Labels.create_of_not_isSome hn)] at h
    obtain ⟨x, hx, ht⟩ := h
    rcases Array.mem_push.mp hx with hx | rfl
    · exact ⟨x, hx, ht⟩
    · cases ht

theorem bindsOnly_bind (id : UInt32) (e : Handle) : BindsOnly e (Labels.bind id e) := by
  intro l e' h
  by_cases hid : id.toNat < l.size
  · have hb : Labels.bind id e l =
        .ok () ⟨l.entries.modify id.toNat ({ · with target := some e })⟩ := if_pos hid
    rw [after_of_ok hb] at h
    obtain ⟨x, hx, ht⟩ := h
    obtain ⟨j, hj⟩ := Array.mem_iff_getElem?.mp hx
    rw [Array.getElem?_modify] at hj
    split at hj
    · obtain ⟨y, -, rfl⟩ := Option.map_eq_some_iff.mp hj
      exact Or.inr (Option.some.inj ht).symm
    · exact Or.inl ⟨x, Array.mem_of_getElem? hj, ht⟩
  · have hb : Labels.bind id e l = .error (.unknown id) l := if_neg hid
    rw [after_of_error hb] at h
    exact Or.inl h

theorem bindsOnly_createAndBind (name : String) (e : Handle) :
    BindsOnly e (Labels.createAndBind name e) := by
  intro l e' h
  cases hc : Labels.create name l with
  | ok id l' =>
    have hl : after (Labels.createAndBind name e) l = after (Labels.bind id e) l' := by
      rw [Labels.createAndBind, after_bind_of_ok hc]
      cases hb : Labels.bind id e l' with
      | ok _ _ => rw [after_bind_of_ok hb, after_of_ok hb]; rfl
      | error _ _ => rw [after_bind_of_error hb, after_of_error hb]
    rw [hl] at h
    exact (bindsOnly_bind id e l' e' h).imp_left fun h' => binds_create (after_of_ok hc ▸ h')
  | error cause l' =>
    rw [Labels.createAndBind, after_bind_of_error hc] at h
    exact Or.inl (binds_create (after_of_error hc ▸ h))

omit [DecidableEq κ] in
theorem after_onLabels {α : Type} (e : Handle) (act : EStateM LabelError Labels α) (w : World κ) :
    after (World.onLabels e act) w =
      if w.isAlive e then { w with labels := after act w.labels } else w := by
  simp only [after, World.onLabels]
  by_cases he : w.isAlive e
  · rw [if_pos he, if_pos he]
    cases act w.labels <;> rfl
  · rw [if_neg he, if_neg he]

end Change
end EntityWorld
