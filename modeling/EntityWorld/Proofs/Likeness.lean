/-
# Worlds alike

Two worlds are alike along a relation of their handles if of twins the same is
said in both: whether they are alive, what values they have, what labels are bound
to them, what the journal has of them. Slots and generations are not compared, only
how many slots there are and how many are taken.

What happens to an entity in the one world and to its twin in the other leaves
them alike, and whoever asks is told the same, that something is refused
included. If somebody comes in both, the two become twins: nothing was said of
either before.

Key definitions: `World.Alike`, `World.Agrees`.
Key theorems: `World.Alike.enter`, `World.Alike.leave` and its like for the other
changes, `World.Alike.act`, `World.Alike.spawn`.
-/
import EntityWorld.Proofs.Convergence
import EntityWorld.Proofs.HighWater
import EntityWorld.Proofs.Sessions
import EntityWorld.Proofs.Twins
import EntityWorld.Proofs.Values
import Mathlib.Tactic

namespace EntityWorld

open Relator

variable {κ : Type} [Family κ] [DecidableEq κ]

namespace World

variable {w w' : World κ} {ρ σ : Handle → Handle → Prop} {e e' : Handle} {k : κ}

/-- What is said of an entity in the one world is said of its twin in the other, and
there are as many slots and as many entities in them. -/
structure Alike (ρ : Handle → Handle → Prop) (w w' : World κ) : Prop where
  forms_eq : w.forms = w'.forms
  size_eq : w.pool.slots.size = w'.pool.slots.size
  liveCount_eq : w.pool.liveCount = w'.pool.liveCount
  alive : Twinned ρ false w.isAlive w'.isAlive
  value : ∀ k, Twinned ρ none (w.get? k) (w'.get? k)
  labels : w.labels.Alike ρ w'.labels
  journal : w.journal.Alike ρ w'.journal

omit [DecidableEq κ] in
theorem isAlive_enter {pool : SlotPool} (hin : w.pool.Enters e pool) (a : Handle) :
    (w.enter e pool).isAlive a = if a = e then true else w.isAlive a := by
  have hiff : (w.enter e pool).isAlive a ↔ a = e ∨ w.isAlive a := hin.isAlive_iff
  by_cases ha : a = e
  · rw [if_pos ha]
    exact hiff.mpr (Or.inl ha)
  · rw [if_neg ha, Bool.eq_iff_iff, hiff, or_iff_right ha]

omit [DecidableEq κ] in
theorem isAlive_leave {pool : SlotPool} (hout : w.pool.Leaves e pool) (a : Handle) :
    (w.leave e pool).isAlive a = if a = e then false else w.isAlive a := by
  have hiff : (w.leave e pool).isAlive a ↔ a ≠ e ∧ w.isAlive a := hout.isAlive_iff
  by_cases ha : a = e
  · rw [if_pos ha, ← Bool.not_eq_true, hiff]
    exact fun h => h.1 ha
  · rw [if_neg ha, Bool.eq_iff_iff, hiff, and_iff_right ha]

namespace Alike

/-! ### Changes at twins -/

/-- Newcomers become twins. -/
theorem enter (h : Alike ρ w w') (hσ : BiUnique σ) (hle : ∀ a b, ρ a b → σ a b) (he : σ e e')
    (hw : w.Housed) (hw' : w'.Housed) {pool pool' : SlotPool} (hin : w.pool.Enters e pool)
    (hin' : w'.pool.Enters e' pool') (hsize : pool.slots.size = pool'.slots.size)
    (hcount : pool.liveCount = pool'.liveCount) :
    Alike σ (w.enter e pool) (w'.enter e' pool') where
  forms_eq := h.forms_eq
  size_eq := hsize
  liveCount_eq := hcount
  alive := (h.alive.mono hle).update hσ he true (isAlive_enter hin) (isAlive_enter hin')
  value k := by
    rw [funext (hw.get?_enter hin k), funext (hw'.get?_enter hin' k)]
    exact (h.value k).mono hle
  labels := h.labels.mono hle
  journal := (h.journal.mono hle).recordCreation hσ he

section Changes

variable (h : Alike ρ w w') (hρ : BiUnique ρ) (he : ρ e e')
include h hρ he

theorem leave {pool pool' : SlotPool} (hout : w.pool.Leaves e pool)
    (hout' : w'.pool.Leaves e' pool') (hcount : pool.liveCount = pool'.liveCount) :
    Alike ρ (w.leave e pool) (w'.leave e' pool') where
  forms_eq := by rw [forms_leave, forms_leave, h.forms_eq]
  size_eq := by
    change pool.slots.size = pool'.slots.size
    rw [hout.size_eq, hout'.size_eq, h.size_eq]
  liveCount_eq := hcount
  alive := h.alive.update hρ he false (isAlive_leave hout) (isAlive_leave hout')
  value k := (h.value k).update hρ he none (get?_leave hout k) (get?_leave hout' k)
  labels := h.labels.unbind hρ he
  journal := h.journal.recordDestruction hρ he

/-- A change of one component, at twins. -/
theorem value_of_others {u u' : World κ} (o : Option (Value k)) (hown : u.get? k e = o)
    (hown' : u'.get? k e' = o)
    (hrest : ∀ k' a, ¬ (k' = k ∧ a = e) → u.get? k' a = w.get? k' a)
    (hrest' : ∀ k' a, ¬ (k' = k ∧ a = e') → u'.get? k' a = w'.get? k' a) (k' : κ) :
    Twinned ρ none (u.get? k') (u'.get? k') := by
  by_cases hk : k' = k
  · subst hk
    refine (h.value k').update hρ he o (fun a => ?_) fun a => ?_
    · by_cases ha : a = e
      · rw [if_pos ha, ha, hown]
      · rw [if_neg ha, hrest k' a fun hka => ha hka.2]
    · by_cases ha : a = e'
      · rw [if_pos ha, ha, hown']
      · rw [if_neg ha, hrest' k' a fun hka => ha hka.2]
  · rw [funext fun a => hrest k' a fun hka => hk hka.1,
      funext fun a => hrest' k' a fun hka => hk hka.1]
    exact h.value k'

theorem write (hk : w.isRegistered k) (hk' : w'.isRegistered k) (ha : w.isAlive e)
    (ha' : w'.isAlive e') (o : Option (Value k)) : Alike ρ (w.write k e o) (w'.write k e' o) where
  forms_eq := (forms_rework _).trans (h.forms_eq.trans (forms_rework _).symm)
  size_eq := h.size_eq
  liveCount_eq := h.liveCount_eq
  alive := h.alive
  value := h.value_of_others hρ he o (get?_write_self hk ha o) (get?_write_self hk' ha' o)
    (fun _ _ => get?_write_of_ne ha o) fun _ _ => get?_write_of_ne ha' o
  labels := h.labels
  journal := h.journal.recordUpdate hρ he (tagOf k)

theorem discard (ha : w.isAlive e) (ha' : w'.isAlive e') :
    Alike ρ (w.discard k e) (w'.discard k e') where
  forms_eq := (forms_rework _).trans (h.forms_eq.trans (forms_rework _).symm)
  size_eq := h.size_eq
  liveCount_eq := h.liveCount_eq
  alive := h.alive
  value := h.value_of_others hρ he none get?_discard_self get?_discard_self
    (fun _ _ => get?_discard_of_ne ha) fun _ _ => get?_discard_of_ne ha'
  labels := h.labels
  journal := by
    unfold World.discard
    rw [(h.value k).eq hρ he]
    cases (w'.get? k e').isSome with
    | true => exact h.journal.recordRemoval hρ he (tagOf k)
    | false => exact h.journal

theorem stamp (k : κ) : Alike ρ (w.stamp k e) (w'.stamp k e') where
  forms_eq := h.forms_eq
  size_eq := h.size_eq
  liveCount_eq := h.liveCount_eq
  alive := h.alive
  value := h.value
  labels := h.labels
  journal := h.journal.recordUpdate hρ he (tagOf k)

end Changes

theorem relabel (h : Alike ρ w w') {l l' : Labels} (hl : l.Alike ρ l') :
    Alike ρ { w with labels := l } { w' with labels := l' } :=
  { h with labels := hl }

/-! ### Actions on twins -/

/-- A program cannot tell two results apart that concern `e` and `e'`, and what is left
is alike. -/
abbrev Agrees (ρ : Handle → Handle → Prop) (e e' : Handle) {α : Type} :
    EStateM.Result WorldError (World κ) α → EStateM.Result WorldError (World κ) α → Prop :=
  Agree (Alike ρ) fun c c' => (complaint e c : Answer κ) = complaint e' c'

section Actions

variable (h : Alike ρ w w') (hρ : BiUnique ρ) (he : ρ e e')
include h hρ he

theorem refusal? (k : κ) : Option.Rel (fun c c' => (complaint e c : Answer κ) = complaint e' c')
    (w.refusal? k e) (w'.refusal? k e') := by
  unfold World.refusal?
  rw [isRegistered_eq_of_forms h.forms_eq, h.alive.eq hρ he]
  cases w'.isRegistered k with
  | false => exact .some (by simp [complaint])
  | true =>
    cases w'.isAlive e' with
    | false => exact .some ((complaint_notAlive e).trans (complaint_notAlive e').symm)
    | true => exact .none

/-- What may be refused is refused in both worlds or in neither. -/
theorem agrees_of_refusal {α : Type} {x x' r r' : EStateM.Result WorldError (World κ) α}
    (hx : x = match w.refusal? k e with
      | some c => .error c w
      | none => r)
    (hx' : x' = match w'.refusal? k e' with
      | some c => .error c w'
      | none => r')
    (hr : w.isRegistered k → w'.isRegistered k → w.isAlive e → w'.isAlive e' →
      Agrees ρ e e' r r') : Agrees ρ e e' x x' := by
  have hrefusal := h.refusal? hρ he k
  have hmay : w.refusal? k e = none → _ := refusal?_eq_none_iff.mp
  have hmay' : w'.refusal? k e' = none → _ := refusal?_eq_none_iff.mp
  rw [hx, hx']
  generalize w.refusal? k e = o, w'.refusal? k e' = o' at hrefusal hmay hmay' ⊢
  cases hrefusal with
  | some hsame => exact .error hsame h
  | none => exact hr (hmay rfl).1 (hmay' rfl).1 (hmay rfl).2 (hmay' rfl).2

theorem agrees_add (v : Value k) : Agrees ρ e e' (World.add k e v w) (World.add k e' v w') :=
  h.agrees_of_refusal hρ he (add_eq k e v w) (add_eq k e' v w') fun hk hk' ha ha' =>
    .ok () (h.write hρ he hk hk' ha ha' (some v))

theorem agrees_emplace (make : Unit → Option (Value k)) :
    Agrees ρ e e' (World.emplace k e make w) (World.emplace k e' make w') :=
  h.agrees_of_refusal hρ he (emplace_eq k e make w) (emplace_eq k e' make w')
    fun hk hk' ha ha' => .ok _ (h.write hρ he hk hk' ha ha' (make ()))

theorem agrees_remove : Agrees ρ e e' (World.remove k e w) (World.remove k e' w') := by
  refine h.agrees_of_refusal hρ he (remove_eq k e w) (remove_eq k e' w') fun _ _ ha ha' => ?_
  rw [(h.value k).eq hρ he]
  exact .ok _ (h.discard hρ he ha ha')

theorem agrees_markDirty : Agrees ρ e e' (World.markDirty k e w) (World.markDirty k e' w') := by
  refine h.agrees_of_refusal hρ he (markDirty_eq k e w) (markDirty_eq k e' w') fun _ _ _ _ => ?_
  rw [(h.value k).eq hρ he]
  cases (w'.get? k e').isSome with
  | true => exact .ok true (h.stamp hρ he k)
  | false => exact .ok false h

theorem agrees_get : Agrees ρ e e' (World.get k e w) (World.get k e' w') := by
  rw [get_eq, get_eq, isRegistered_eq_of_forms h.forms_eq, (h.value k).eq hρ he]
  split
  · exact .ok _ h
  · exact .error (by simp [complaint]) h

omit hρ he in
/-- A question that both worlds answer alike. -/
theorem agrees_ask {α : Type} {f g : World κ → α} (hfg : f w = g w') :
    Agrees ρ e e' ((f <$> EStateM.get) w) ((g <$> EStateM.get) w') := by
  change Agrees ρ e e' (.ok (f w) w) (.ok (g w') w')
  rw [hfg]
  exact .ok _ h

theorem agrees_onLabels {α : Type} {act act' : EStateM LabelError Labels α}
    (hact : Agree (Labels.Alike ρ) Eq (act w.labels) (act' w'.labels)) :
    Agrees ρ e e' (World.onLabels e act w) (World.onLabels e' act' w') := by
  unfold World.onLabels
  rw [h.alive.eq hρ he]
  split
  · generalize act w.labels = r, act' w'.labels = r' at hact ⊢
    cases hact with
    | ok a hl => exact .ok a (h.relabel hl)
    | error hc hl =>
      cases hc
      exact .error (by simp [complaint]) (h.relabel hl)
  · exact .error ((complaint_notAlive e).trans (complaint_notAlive e').symm) h

theorem agrees_kill : Agrees ρ e e' (World.kill e w) (World.kill e' w') := by
  have halive : w.isAlive e ↔ w'.isAlive e' := Bool.eq_iff_iff.mp (h.alive.eq hρ he)
  by_cases ha : w.isAlive e
  · obtain ⟨pool, hk⟩ : ∃ q, SlotPool.kill e w.pool = .ok () q := ⟨_, if_pos ha⟩
    obtain ⟨pool', hk'⟩ : ∃ q, SlotPool.kill e' w'.pool = .ok () q := ⟨_, if_pos (halive.mp ha)⟩
    rw [kill_of_ok hk, kill_of_ok hk']
    refine .ok () (h.leave hρ he (SlotPool.leaves_of_kill hk) (SlotPool.leaves_of_kill hk') ?_)
    rw [(SlotPool.eq_of_kill hk).2.2, (SlotPool.eq_of_kill hk').2.2, h.liveCount_eq]
  · have hk : SlotPool.kill e w.pool = .error (.notAlive e) w.pool := if_neg ha
    have hk' : SlotPool.kill e' w'.pool = .error (.notAlive e') w'.pool := if_neg (mt halive.mpr ha)
    rw [kill_of_error hk, kill_of_error hk']
    exact .error ((complaint_notAlive e).trans (complaint_notAlive e').symm) h

/-- Whatever is done with an entity comes to the same with its twin. -/
theorem act (hw : w.TagsDistinct) (hw' : w'.TagsDistinct) (d : Deed κ) :
    Agrees ρ e e' (d.act e w) (d.act e' w') := by
  cases d with
  | kill => exact (h.agrees_kill hρ he).map _
  | add k v => exact (h.agrees_add hρ he v).map _
  | emplace k make => exact (h.agrees_emplace hρ he make).map _
  | remove k => exact (h.agrees_remove hρ he).map _
  | markDirty k => exact (h.agrees_markDirty hρ he).map _
  | get k => exact (h.agrees_get hρ he).map _
  | has k => exact (h.agrees_get hρ he).map _
  | typesOf =>
    refine h.agrees_ask (congrArg Answer.tags ?_)
    rw [typesOf_eq_map hw, typesOf_eq_map hw', h.forms_eq]
    simp only [(h.value _).eq hρ he]
  | isAlive => exact h.agrees_ask (congrArg Answer.flag (h.alive.eq hρ he))
  | bindLabel id => exact (h.agrees_onLabels hρ he (h.labels.bind he id)).map _
  | createLabel name => exact (h.agrees_onLabels hρ he (h.labels.createAndBind he name)).map _
  | labelOf => exact h.agrees_ask (congrArg Answer.label (h.labels.labelOf?_eq hρ he))

/-- A program is told the same of twins. -/
theorem answer_eq (hw : w.TagsDistinct) (hw' : w'.TagsDistinct) (d : Deed κ) :
    d.answer e w = d.answer e' w' := by
  have hact := h.act hρ he hw hw' d
  unfold Deed.answer
  generalize d.act e w = r, d.act e' w' = r' at hact ⊢
  cases hact with
  | ok => rfl
  | error hsame => exact hsame

end Actions

/-! ### Newcomers -/

/-- Whether there is a slot for one more, and how many there are then, is not a matter
of which are free. -/
theorem spawn (h : Alike ρ w w') (hw : w.pool.WellFormed) (hw' : w'.pool.WellFormed) :
    (∃ e pool e' pool', SlotPool.spawn w.pool = .ok e pool ∧ SlotPool.spawn w'.pool = .ok e' pool' ∧
      pool.slots.size = pool'.slots.size ∧ pool.liveCount = pool'.liveCount) ∨
    SlotPool.spawn w.pool = .error .exhausted w.pool ∧
      SlotPool.spawn w'.pool = .error .exhausted w'.pool := by
  have hcount := h.liveCount_eq
  by_cases hfull : w.pool.liveCount = SlotPool.limit.toNat
  · exact Or.inr ⟨SlotPool.spawn_of_full hw hfull, SlotPool.spawn_of_full hw' (hcount ▸ hfull)⟩
  · left
    have hroom := lt_of_le_of_ne (hw.liveCount_le.trans hw.size_le) hfull
    obtain ⟨e, pool, hs⟩ := SlotPool.exists_spawn hw hroom
    obtain ⟨e', pool', hs'⟩ := SlotPool.exists_spawn hw' (hcount ▸ hroom)
    have hnext : pool.liveCount = pool'.liveCount := by
      rw [(SlotPool.spawn_cases hw hs).2.1, (SlotPool.spawn_cases hw' hs').2.1, hcount]
    refine ⟨e, pool, e', pool', hs, hs', eq_of_forall_ge_iff fun n => ?_, hnext⟩
    rw [SlotPool.size_le_iff_of_spawn hw hs, SlotPool.size_le_iff_of_spawn hw' hs', h.size_eq, hnext]

end Alike

end World
end EntityWorld
