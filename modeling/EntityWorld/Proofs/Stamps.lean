/-
# What the stamps tell

The stamps after a version tell of a component that was written, that was
removed or whose entity went (`Journal.Tells`). As long as the clock is past
that version, nothing that happens makes them silent again: one stamp takes the
place of another, and pruning up to the version drops none of them.

A component that a change does not tell of is as it was before the change, in
the bytes that a capture would show and in whether it is there (`Unchanged`).
Two changes are exceptions, edits in place and a codec offered to a kind that
had none; what follows from them is told later or elsewhere.

That an entity was destroyed is also seen from its slot, which has passed its
generation (`World.Spent`), unless a slot has run out of generations
(`Operation.KeepsNames`).

Key definitions: `Journal.Tells`, `World.Has`, `World.Unchanged`, `World.Spent`.
Key theorems: `Journal.tells_recordUpdate` and its like for the other records,
`Change.tells_mono`, `World.ReachableBy.spent`.
-/
import EntityWorld.Proofs.WellFormed
import Mathlib.Tactic

namespace EntityWorld

/-! ### The journal -/

namespace Journal

/-- The version at which an entity was created. -/
def createdAt? (j : Journal) (e : Handle) : Option Nat := j.created[e]?

/-- The version at which an entity was destroyed. -/
def destroyedAt? (j : Journal) (e : Handle) : Option Nat := j.destroyed[e]?

/-- A component was written after a version. -/
def writtenSince (j : Journal) (v : Nat) (e : Handle) (t : TypeTag) : Bool :=
  (j.updatedAt? e t).any (v < ·)

/-- A component was removed after a version, or its entity destroyed. -/
def goneSince (j : Journal) (v : Nat) (e : Handle) (t : TypeTag) : Bool :=
  (j.destroyedAt? e).any (v < ·) || (j.removedAt? e t).any (v < ·)

/-- The stamps after a version tell of a component. -/
def Tells (j : Journal) (v : Nat) (e : Handle) (t : TypeTag) : Prop :=
  j.writtenSince v e t ∨ j.goneSince v e t

variable {j : Journal} {v : Nat} {e e' : Handle} {t t' : TypeTag}

theorem createdAt?_recordCreation :
    (j.recordCreation e).createdAt? e' = if e' = e then some j.now else j.createdAt? e' := by
  simp only [createdAt?, recordCreation, Std.ExtTreeMap.getElem?_insert,
    Std.LawfulEqOrd.compare_eq_iff_eq]
  exact if_congr eq_comm rfl rfl

theorem destroyedAt?_recordDestruction :
    (j.recordDestruction e).destroyedAt? e' = if e' = e then some j.now else j.destroyedAt? e' := by
  simp only [destroyedAt?, recordDestruction, Std.ExtTreeMap.getElem?_insert,
    Std.LawfulEqOrd.compare_eq_iff_eq]
  exact if_congr eq_comm rfl rfl

theorem destroyedAt?_prune (a : Nat) :
    (j.prune a).destroyedAt? e = (j.destroyedAt? e).filter (a < ·) := by
  simp [destroyedAt?, prune, Std.ExtTreeMap.getElem?_filter]

theorem isSome_destroyedAt?_of_forget {x : Key} (h : ((j.forget x).destroyedAt? e).isSome) :
    (j.destroyedAt? e).isSome := by
  cases x with
  | destroyed e' =>
    simp only [forget, forgetDestruction, destroyedAt?, Std.ExtTreeMap.getElem?_erase] at h
    split at h
    · cases h
    · exact h
  | _ => exact h

theorem tells_recordUpdate (hv : v < j.now) :
    (j.recordUpdate e t).Tells v e' t' ↔ (e' = e ∧ t' = t) ∨ j.Tells v e' t' := by
  have hd : (j.recordUpdate e t).destroyedAt? e' = j.destroyedAt? e' := rfl
  unfold Tells writtenSince goneSince
  rw [updatedAt?_recordUpdate, removedAt?_recordUpdate, hd]
  split
  · next h => simp [h, hv]
  · next h => simp [h]

theorem tells_recordRemoval (hv : v < j.now) :
    (j.recordRemoval e t).Tells v e' t' ↔ (e' = e ∧ t' = t) ∨ j.Tells v e' t' := by
  have hd : (j.recordRemoval e t).destroyedAt? e' = j.destroyedAt? e' := rfl
  unfold Tells writtenSince goneSince
  rw [updatedAt?_recordRemoval, removedAt?_recordRemoval, hd]
  split
  · next h => simp [h, hv]
  · next h => simp [h]

theorem tells_recordDestruction (hv : v < j.now) :
    (j.recordDestruction e).Tells v e' t ↔ e' = e ∨ j.Tells v e' t := by
  unfold Tells writtenSince goneSince
  rw [updatedAt?_recordDestruction, removedAt?_recordDestruction, destroyedAt?_recordDestruction]
  split
  · next h => simp [h, hv]
  · next h => simp [h]

/-- Pruning drops none of the stamps after a version if it stops there. -/
theorem tells_prune {a : Nat} (ha : a ≤ v) : (j.prune a).Tells v e t ↔ j.Tells v e t := by
  have hany : ∀ o : Option Nat, (o.filter (a < ·)).any (v < ·) = o.any (v < ·) := by
    intro o
    cases o with
    | none => rfl
    | some u =>
      by_cases hu : a < u
      · simp [Option.filter, hu]
      · have hu' : ¬ v < u := by omega
        simp [Option.filter, hu, hu']
  unfold Tells writtenSince goneSince
  rw [updatedAt?_prune, removedAt?_prune, destroyedAt?_prune, hany, hany, hany]

end Journal

/-! ### Components that a change leaves alone -/

variable {κ : Type} [Family κ]

namespace World

/-- A live entity has the component of a tag. -/
def Has (w : World κ) (e : Handle) (t : TypeTag) : Prop := w.isAlive e ∧ w.holds e.slot t

/-- A component is there after a change as it was before. -/
structure Unchanged (w w' : World κ) (e : Handle) (t : TypeTag) : Prop where
  payload?_eq : w'.payload? e t = w.payload? e t
  has_iff : w'.Has e t ↔ w.Has e t

variable {w w' : World κ} {e e' : Handle} {t : TypeTag}

theorem payload?_eq_none (h : ¬ w.Has e t) : w.payload? e t = none := by
  by_cases ha : w.isAlive e
  · have hh : w.holds e.slot t = false := Bool.eq_false_iff.mpr fun hh => h ⟨ha, hh⟩
    rw [payload?_of_isAlive ha, bytes?_eq_none hh]
  · exact payload?_of_not_isAlive ha

theorem unchanged_of_not_has (h : ¬ w.Has e t) (h' : ¬ w'.Has e t) : Unchanged w w' e t :=
  ⟨(payload?_eq_none h').trans (payload?_eq_none h).symm, iff_of_false h' h⟩

theorem unchanged_of_bytes? (ha : w'.isAlive e ↔ w.isAlive e)
    (hb : w.isAlive e → w'.bytes? e.slot t = w.bytes? e.slot t)
    (hh : w.isAlive e → w'.holds e.slot t = w.holds e.slot t) : Unchanged w w' e t := by
  by_cases h : w.isAlive e
  · refine ⟨?_, ?_⟩
    · rw [payload?_of_isAlive h, payload?_of_isAlive (ha.mpr h), hb h]
    · unfold Has
      rw [ha, hh h]
  · exact unchanged_of_not_has (fun hhas => h hhas.1) fun hhas => h (ha.mp hhas.1)

/-- A newcomer has nothing, and had nothing. -/
theorem unchanged_enter {pool : SlotPool} (hw : w.WellFormed) (he : w.pool.Enters e pool) :
    Unchanged w (w.enter e pool) e' t := by
  by_cases hs : e' = e
  · rw [hs]
    have hvacant := hw.housed.holds_eq_false he.vacant t
    refine unchanged_of_not_has (fun h => he.not_isAlive rfl h.1) fun h => ?_
    exact Bool.false_ne_true (hvacant.symm.trans h.2)
  · have ha : (w.enter e pool).isAlive e' ↔ w.isAlive e' :=
      he.isAlive_iff.trans (or_iff_right hs)
    exact unchanged_of_bytes? ha (fun _ => rfl) fun _ => rfl

/-- Who goes takes nothing of anybody else's. -/
theorem unchanged_leave {pool : SlotPool} (he : w.pool.Leaves e pool) (hne : e' ≠ e) :
    Unchanged w (w.leave e pool) e' t := by
  have ha : (w.leave e pool).isAlive e' ↔ w.isAlive e' := he.isAlive_iff.trans (and_iff_right hne)
  have hslot : w.isAlive e' → e'.slot ≠ e.slot :=
    fun h hs => hne (SlotPool.eq_of_isAlive h he.alive hs)
  refine unchanged_of_bytes? ha (fun h => ?_) fun h => ?_
  · rw [bytes?_leave, if_neg (hslot h)]
  · rw [holds_leave, if_neg (hslot h)]

theorem unchanged_enroll {k : κ} (codec : Option (Codec (Value k))) :
    Unchanged w (w.enroll k codec) e t :=
  unchanged_of_bytes? Iff.rfl (fun _ => bytes?_enroll codec) fun _ => holds_enroll codec

variable [DecidableEq κ] {k : κ}

omit [DecidableEq κ] in
/-- Live entities with one slot are the same, so components differ in slot or tag. -/
theorem slot_ne_or_tag_ne (he : w.isAlive e) (hne : ¬ (e' = e ∧ t = tagOf k)) (h : w.isAlive e') :
    ¬ (e'.slot = e.slot ∧ t = tagOf k) :=
  fun hs => hne ⟨SlotPool.eq_of_isAlive h he hs.1, hs.2⟩

theorem unchanged_write (hw : w.TagsDistinct) (hk : w.isRegistered k) (he : w.isAlive e)
    (o : Option (Value k)) (hne : ¬ (e' = e ∧ t = tagOf k)) :
    Unchanged w (w.write k e o) e' t := by
  have hother : w.isAlive e' → ¬ (e'.slot = e.slot ∧ t = tagOf k) := slot_ne_or_tag_ne he hne
  refine unchanged_of_bytes? Iff.rfl (fun h => bytes?_write e o (hother h)) fun h => ?_
  rw [holds_write hw hk, if_neg (hother h)]

theorem unchanged_discard (hw : w.TagsDistinct) (hk : w.isRegistered k) (he : w.isAlive e)
    (hne : e' = e ∧ t = tagOf k → ¬ w.Has e' t) : Unchanged w (w.discard k e) e' t := by
  by_cases hown : e' = e ∧ t = tagOf k
  · refine unchanged_of_not_has (hne hown) fun h => hne hown ⟨h.1, ?_⟩
    have hh := h.2
    rw [holds_discard hw hk] at hh
    split at hh
    · cases hh
    · exact hh
  · have hother : w.isAlive e' → ¬ (e'.slot = e.slot ∧ t = tagOf k) := slot_ne_or_tag_ne he hown
    refine unchanged_of_bytes? Iff.rfl (fun h => bytes?_discard e (hother h)) fun h => ?_
    rw [holds_discard hw hk, if_neg (hother h)]

/-- A change of values in a column takes no component away and adds none. -/
theorem has_rework_iff {f : Column (Value k) → Column (Value k)}
    (hf : ∀ c i, (f c).contains i = c.contains i) : (w.rework k f).Has e t ↔ w.Has e t := by
  have hh : (w.rework k f).holds e.slot t = w.holds e.slot t := holds_rework fun _ c => hf c e.slot
  unfold Has
  rw [hh]
  rfl

/-- An edit in place changes the one component only, and that one stays there. -/
theorem has_edit_iff (f : Value k → Value k) :
    (w.rework k (·.modify e.slot f)).Has e' t ↔ w.Has e' t :=
  has_rework_iff fun c i => Column.contains_modify c e.slot i f

theorem unchanged_edit (he : w.isAlive e) (f : Value k → Value k)
    (hne : ¬ (e' = e ∧ t = tagOf k)) :
    Unchanged w (w.rework k (·.modify e.slot f)) e' t := by
  have hother : w.isAlive e' → ¬ (e'.slot = e.slot ∧ t = tagOf k) := slot_ne_or_tag_ne he hne
  refine unchanged_of_bytes? Iff.rfl (fun h => bytes?_rework fun ht c => ?_) fun h =>
    holds_rework fun _ c => Column.contains_modify c e.slot e'.slot f
  rw [Column.get?_modify, if_neg fun hs => hother h ⟨hs, ht⟩]

theorem has_offer_iff (codec : Option (Codec (Value k))) :
    (w.offer k codec).Has e t ↔ w.Has e t := by
  unfold Has
  rw [holds_offer]
  rfl

/-- A codec matters only to the kind it is for, and only if that had none. -/
theorem unchanged_offer (codec : Option (Codec (Value k)))
    (h : t = tagOf k → w.isRegistered k → (w.synced? t).isSome) :
    Unchanged w (w.offer k codec) e t := by
  refine unchanged_of_bytes? Iff.rfl (fun _ => ?_) fun _ => holds_offer codec
  rw [bytes?, bytes?, ofTag?_offer_of_isSome codec h]

/-! ### Slots pass the generations of the destroyed -/

/-- The slot of every entity known to be destroyed has passed its generation. -/
def Spent (w : World κ) : Prop :=
  ∀ e, (w.journal.destroyedAt? e).isSome → e.generation < (w.pool.slotAt e.slot).generation

omit [DecidableEq κ] in
theorem Spent.not_isAlive (hw : w.Spent) (h : (w.journal.destroyedAt? e).isSome) :
    ¬ w.isAlive e := by
  intro ha
  have hg := (SlotPool.isAlive_iff_slotAt.mp ha).2
  have hlt := hw e h
  rw [hg] at hlt
  exact UInt32.lt_irrefl _ hlt

omit [DecidableEq κ] in
theorem Spent.enter {pool : SlotPool} (hw : w.Spent) (he : w.pool.Enters e pool) :
    (w.enter e pool).Spent := by
  intro e' hd
  have hlt := hw e' hd
  change e'.generation < (pool.slotAt e'.slot).generation
  rw [he.slotAt_eq]
  split <;> exact hlt

theorem lt_add_one_of_ne {g : UInt32} (h : g ≠ 0xffffffff) : g < g + 1 := by
  have hne : g.toNat ≠ 4294967295 := fun hn => h (UInt32.toNat_inj.mp hn)
  have hbound := g.toNat_lt
  rw [UInt32.lt_iff_toNat_lt, UInt32.toNat_add]
  change g.toNat < (g.toNat + 1) % 4294967296
  omega

omit [DecidableEq κ] in
/-- The slot that is left passes the generation of the one who leaves, unless
that was the last. -/
theorem Spent.leave {pool : SlotPool} (hw : w.Spent) (he : w.pool.Leaves e pool)
    (hlast : e.generation ≠ 0xffffffff) : (w.leave e pool).Spent := by
  have hnext := lt_add_one_of_ne hlast
  intro e' hd
  change ((w.journal.recordDestruction e).destroyedAt? e').isSome at hd
  change e'.generation < (pool.slotAt e'.slot).generation
  rw [Journal.destroyedAt?_recordDestruction] at hd
  rw [he.slotAt_eq]
  by_cases hs : e'.slot = e.slot
  · rw [if_pos hs]
    split at hd
    · next heq => exact heq ▸ hnext
    · have hlt := hw e' hd
      rw [hs, (SlotPool.isAlive_iff_slotAt.mp he.alive).2] at hlt
      exact UInt32.lt_trans hlt hnext
  · rw [if_neg hs]
    rw [if_neg fun heq => hs (congrArg Handle.slot heq)] at hd
    exact hw e' hd

end World

/-! ### Every change -/

/-- No slot is emptied in its last generation, so that its handles stay different. -/
def Operation.KeepsNames (w : World κ) : Operation κ → Prop
  | .kill e => w.isAlive e → e.generation ≠ 0xffffffff
  | _ => True

/-- The operation drops no stamp after a version, and sets no clock back to it. -/
def Operation.KeepsStamps (v : Nat) : Operation κ → Prop
  | .setVersion u => v < u
  | .prune a => a ≤ v
  | .forget _ => False
  | _ => True

namespace Change

variable [DecidableEq κ] {op : Operation κ} {w w' : World κ} {v : Nat}

/-- What was told stays told. -/
theorem tells_mono (h : Change op w w') (hop : op.KeepsStamps v) (hv : v < w.journal.now) :
    v < w'.journal.now ∧ ∀ e t, w.journal.Tells v e t → w'.journal.Tells v e t := by
  cases h with
  | leave => exact ⟨hv, fun e t ht => (Journal.tells_recordDestruction hv).mpr (Or.inr ht)⟩
  | write => exact ⟨hv, fun e t ht => (Journal.tells_recordUpdate hv).mpr (Or.inr ht)⟩
  | stamp => exact ⟨hv, fun e t ht => (Journal.tells_recordUpdate hv).mpr (Or.inr ht)⟩
  | discard =>
    simp only [World.discard]
    split
    · exact ⟨hv, fun e t ht => (Journal.tells_recordRemoval hv).mpr (Or.inr ht)⟩
    · exact ⟨hv, fun _ _ ht => ht⟩
  | setVersion u => exact ⟨hop, fun _ _ ht => ht⟩
  | prune a => exact ⟨hv, fun e t ht => (Journal.tells_prune hop).mpr ht⟩
  | forget x => exact hop.elim
  | _ => exact ⟨hv, fun _ _ ht => ht⟩

theorem spent (h : Change op w w') (hop : ∀ e, op = .kill e → e.generation ≠ 0xffffffff)
    (hw : w.Spent) : w'.Spent := by
  cases h with
  | enter he => exact hw.enter he
  | leave he => exact hw.leave he (hop _ rfl)
  | discard =>
    intro e hd
    refine hw e ?_
    simp only [World.discard] at hd
    split at hd <;> exact hd
  | prune a =>
    intro e hd
    refine hw e ?_
    change ((w.journal.prune a).destroyedAt? e).isSome at hd
    rw [Journal.destroyedAt?_prune] at hd
    exact Option.isSome_of_isSome_filter _ _ hd
  | forget x => exact fun e hd => hw e (Journal.isSome_destroyedAt?_of_forget hd)
  | _ => exact hw

end Change

namespace World

variable [DecidableEq κ] {w : World κ} {op : Operation κ}

theorem apply_kill_of_not_isAlive {e : Handle} (h : ¬ w.isAlive e) :
    (Operation.kill e).apply w = w := by
  have hk : SlotPool.kill e w.pool = .error (.notAlive e) w.pool := if_neg h
  have hw : kill e w = .error (.handle (.notAlive e)) w := by
    simp only [kill, hk]
  exact after_of_error hw

/-- Where handles stay different, an operation does nothing at all, or it is not
the end of an entity of the last generation. -/
theorem apply_eq_or_of_keepsNames (h : op.KeepsNames w) :
    op.apply w = w ∨ ∀ e, op = .kill e → e.generation ≠ 0xffffffff := by
  by_cases hdead : ∃ e, op = .kill e ∧ ¬ w.isAlive e
  · obtain ⟨e, rfl, hd⟩ := hdead
    exact Or.inl (apply_kill_of_not_isAlive hd)
  · refine Or.inr ?_
    rintro e rfl
    exact h (by_contra fun hd => hdead ⟨e, rfl, hd⟩)

theorem ReachableBy.spent (h : ReachableBy Operation.KeepsNames w) : w.Spent := by
  induction h with
  | start hs =>
    rw [eq_of_ofSettings? hs]
    intro e hd
    simp [Journal.destroyedAt?] at hd
  | @step w op hw hnames ih =>
    rcases apply_eq_or_of_keepsNames hnames with hsame | hlast
    · rw [hsame]
      exact ih
    · exact Change.keeps_row (fun hc hs => Change.spent hc hlast hs)
        (Change.row_apply op hw.wellFormed.pool) ih

end World
end EntityWorld
