/-
# A restored snapshot is an overlay

Restoring a snapshot lays it over the world: its slots come to life, its
components take the place of those that were there, and all else shows through
(`World.Overlaid`). Of the entries for one component the last one counts
(`Snapshot.last?`).

Overlays compose: one snapshot laid over another is both in a row laid over the
first world (`Overlaid.append`). A single entry is an overlay (`overlaid_entry`),
so a replay of any length is one, in whatever order its entries stand, however
often they repeat a component and whatever gaps between slots they open.

Key definitions: `Snapshot.last?`, `World.value?`, `World.Overlaid`.
Key theorems: `World.Overlaid.append`, `World.overlaid_entry`,
`World.Exposed.overlaid_restore`.
-/
import EntityWorld.Proofs.Access
import EntityWorld.Proofs.Delta
import Mathlib.Tactic

namespace EntityWorld

/-! ### The entries of a component -/

namespace Snapshot

/-- The last entry for a slot and a tag. -/
def last? (s : Snapshot) (i : Nat) (t : TypeTag) : Option SnapshotEntry :=
  (s.entries.filter fun x => x.index.toNat = i ∧ x.tag = t).getLast?

variable {xs ys : List SnapshotEntry} {x y : SnapshotEntry} {i : Nat} {t : TypeTag}

theorem last?_append : last? ⟨xs ++ ys⟩ i t = (last? ⟨ys⟩ i t).or (last? ⟨xs⟩ i t) := by
  unfold last?
  rw [List.filter_append, List.getLast?_append]

theorem last?_singleton :
    last? ⟨[x]⟩ i t = if x.index.toNat = i ∧ x.tag = t then some x else none := by
  unfold last?
  by_cases h : x.index.toNat = i ∧ x.tag = t
  · rw [if_pos h, List.filter_cons_of_pos (by simpa using h)]
    rfl
  · rw [if_neg h, List.filter_cons_of_neg (by simpa using h)]
    rfl

theorem of_last? (h : last? ⟨xs⟩ i t = some x) : x ∈ xs ∧ x.index.toNat = i ∧ x.tag = t := by
  obtain ⟨hx, hkey⟩ := List.mem_filter.mp (List.mem_of_getLast? h)
  exact ⟨hx, by simpa using hkey⟩

end Snapshot

variable {κ : Type} [Family κ]

/-- The kind and its codec: what a registration is apart from its column. -/
def Registration.form (r : Registration κ) : (k : κ) × Option (Codec (Value k)) := ⟨r.kind, r.codec⟩

namespace World

/-- What is registered, in the order of registration. -/
def forms (w : World κ) : List ((k : κ) × Option (Codec (Value k))) :=
  w.registrations.map (·.form)

theorem synced?_eq_of_forms {w w' : World κ} (h : w'.forms = w.forms) (t : TypeTag) :
    w'.synced? t = w.synced? t := by
  have hform : ∀ u : World κ, u.synced? t = (u.forms.find? (tagOf ·.1 == t)).bind fun s =>
      s.2.map fun c => ⟨s.1, c⟩ := by
    intro u
    rw [forms, List.find?_map, Option.bind_map]
    rfl
  rw [hform, hform, h]

/-! ### Settling a slot -/

section Settle

variable (w : World κ) (i : UInt32)

theorem labels_settle : (w.settle i).labels = w.labels := by
  unfold settle
  split <;> rfl

theorem forms_settle : (w.settle i).forms = w.forms := by
  unfold forms
  rw [registrations_settle]

theorem settings_settle : (w.settle i).settings = w.settings := by
  unfold settle
  split <;> rfl

/-- Settling a slot records the newcomer, if there is one. -/
theorem journal_settle : (w.settle i).journal =
    if w.isAlive (w.pool.current i) then w.journal
    else w.journal.recordCreation (w.pool.current i) := by
  unfold settle
  split <;> rfl

theorem createdAt?_settle (e : Handle) : (w.settle i).journal.createdAt? e =
    if e = w.pool.current i ∧ ¬ w.isAlive e then some w.journal.now
    else w.journal.createdAt? e := by
  rw [journal_settle]
  by_cases ha : w.isAlive (w.pool.current i)
  · have hold : ¬ (e = w.pool.current i ∧ ¬ w.isAlive e) := fun h => h.2 (h.1 ▸ ha)
    rw [if_pos ha, if_neg hold]
  · rw [if_neg ha, Journal.createdAt?_recordCreation]
    exact if_congr ⟨fun h => ⟨h, h ▸ ha⟩, And.left⟩ rfl rfl

/-- The stamps of components, the destroyed and the clock stay as they are. -/
theorem stamps_settle : ((w.settle i).journal.updatedAt? = w.journal.updatedAt? ∧
    (w.settle i).journal.removedAt? = w.journal.removedAt?) ∧
    (w.settle i).journal.destroyed = w.journal.destroyed ∧
    (w.settle i).journal.now = w.journal.now := by
  rw [journal_settle]
  split <;> exact ⟨⟨rfl, rfl⟩, rfl, rfl⟩

end Settle

variable [DecidableEq κ] {w : World κ} {k k' : κ} {i : Nat}

/-! ### Values, slot by slot -/

/-- The value of a kind in a slot, whoever lives there. -/
def value? (w : World κ) (k : κ) (i : Nat) : Option (Value k) := (w.column? k).bind (·.get? i)

theorem column?_settle (j : UInt32) : (w.settle j).column? k = w.column? k := by
  unfold column?
  rw [registrations_settle]

theorem value?_settle (j : UInt32) : (w.settle j).value? k i = w.value? k i := by
  unfold value?
  rw [column?_settle]

theorem get?_of_isAlive {e : Handle} (h : w.isAlive e) : w.get? k e = w.value? k e.slot := if_pos h

theorem forms_rework (f : Column (Value k) → Column (Value k)) : (w.rework k f).forms = w.forms := by
  have hmap : (w.rework k f).forms = w.registrations.map fun r => (r.modifyColumn k f).form :=
    List.map_map
  rw [hmap]
  refine List.map_congr_left fun r _ => ?_
  rcases Registration.modifyColumn_cases k f r with ⟨-, h⟩ | ⟨c, codec, rfl, h⟩
  · rw [h]
  · rw [h]
    rfl

theorem column?_rework_of_ne (f : Column (Value k) → Column (Value k)) (hk : k' ≠ k) :
    (w.rework k f).column? k' = w.column? k' := by
  have hmap : (w.rework k f).column? k' =
      w.registrations.findSome? fun r => (r.modifyColumn k f).column? k' := List.findSome?_map
  rw [hmap, column?]
  congr 1
  funext r
  rcases Registration.modifyColumn_cases k f r with ⟨-, h⟩ | ⟨c, codec, rfl, h⟩
  · rw [h]
  · have hother : ∀ c, (Registration.mk k c codec).column? k' = none := fun _ => dif_neg (Ne.symm hk)
    rw [h, hother, hother]

theorem column?_rework (f : Column (Value k) → Column (Value k)) :
    (w.rework k f).column? k = (w.column? k).map f := by
  have hmap : (w.rework k f).column? k =
      w.registrations.findSome? fun r => (r.modifyColumn k f).column? k := List.findSome?_map
  rw [hmap, column?, List.map_findSome?]
  congr 1
  funext r
  rcases Registration.modifyColumn_cases k f r with ⟨hk, h⟩ | ⟨c, codec, rfl, h⟩
  · have hother : r.column? k = none := dif_neg hk
    rw [h, Function.comp_apply, hother]
    rfl
  · have hown : ∀ c, (Registration.mk k c codec).column? k = some c := fun _ => dif_pos rfl
    rw [h, Function.comp_apply, hown, hown]
    rfl

/-- A write goes to the column of its kind, at the slot of its entity. -/
theorem column?_write (e : Handle) (o : Option (Value k)) :
    (w.write k e o).column? k = (w.column? k).map (·.put e.slot o) := column?_rework _

theorem column?_write_of_ne (e : Handle) (o : Option (Value k)) (hk : k' ≠ k) :
    (w.write k e o).column? k' = w.column? k' := column?_rework_of_ne _ hk

theorem value?_write_self (hk : w.isRegistered k) (e : Handle) (o : Option (Value k)) :
    (w.write k e o).value? k e.slot = o := by
  obtain ⟨c, hc⟩ := Option.isSome_iff_exists.mp (isRegistered_iff_column?.mp hk)
  rw [value?, column?_write, hc, Option.map_some, Option.bind_some, Column.get?_put, if_pos rfl]

theorem value?_write_of_ne (e : Handle) (o : Option (Value k)) (h : k' = k → i ≠ e.slot) :
    (w.write k e o).value? k' i = w.value? k' i := by
  by_cases hk : k' = k
  · subst hk
    rw [value?, column?_write, value?, Option.bind_map]
    congr 1
    funext c
    exact (Column.get?_put c _ _ o).trans (if_neg (h rfl))
  · rw [value?, column?_write_of_ne e o hk, value?]

/-! ### Overlays -/

/-- `w'` is `w` with a snapshot laid over it. -/
structure Overlaid (w : World κ) (s : Snapshot) (w' : World κ) : Prop where
  /-- The slots of the snapshot come to life, and all others are as they were. -/
  live_iff : ∀ i, (w'.pool.slotAt i).live = true ↔
    (w.pool.slotAt i).live = true ∨ ∃ x ∈ s.entries, x.index.toNat = i
  generation_eq : ∀ i, (w'.pool.slotAt i).generation = (w.pool.slotAt i).generation
  isAlive_of_isAlive : ∀ e, w.isAlive e → w'.isAlive e
  /-- The last entry of a component is read, and the component is what it says. -/
  written : ∀ i t x, s.last? i t = some x → ∃ k, ∃ c : Codec (Value k), ∃ v,
    w.synced? t = some ⟨k, c⟩ ∧ c.decode x.data = .ok v ∧
      w'.get? k (w'.pool.current x.index) = some v
  value?_eq : ∀ k i, s.last? i (tagOf k) = none → w'.value? k i = w.value? k i
  /-- The newcomers are recorded, and nobody else. -/
  createdAt?_eq : ∀ e, w'.journal.createdAt? e =
    if w'.isAlive e ∧ ¬ w.isAlive e then some w.journal.now else w.journal.createdAt? e
  destroyed_eq : w'.journal.destroyed = w.journal.destroyed
  updatedAt?_eq : ∀ e t, w'.journal.updatedAt? e t =
    if w'.isAlive e ∧ (s.last? e.slot t).isSome then some w.journal.now
    else w.journal.updatedAt? e t
  removedAt?_eq : ∀ e t, w'.journal.removedAt? e t =
    if w'.isAlive e ∧ (s.last? e.slot t).isSome then none else w.journal.removedAt? e t
  now_eq : w'.journal.now = w.journal.now
  forms_eq : w'.forms = w.forms
  labels_eq : w'.labels = w.labels
  settings_eq : w'.settings = w.settings

namespace Overlaid

variable {u w' : World κ} {xs ys : List SnapshotEntry}

theorem nil (w : World κ) : w.Overlaid ⟨[]⟩ w where
  live_iff i := by simp
  generation_eq _ := rfl
  isAlive_of_isAlive _ h := h
  written i t x h := by cases h
  value?_eq _ _ _ := rfl
  createdAt?_eq e := (if_neg fun h => h.2 h.1).symm
  destroyed_eq := rfl
  updatedAt?_eq e t := (if_neg fun h => Bool.false_ne_true h.2).symm
  removedAt?_eq e t := (if_neg fun h => Bool.false_ne_true h.2).symm
  now_eq := rfl
  forms_eq := rfl
  labels_eq := rfl
  settings_eq := rfl

theorem current_eq {s : Snapshot} (h : w.Overlaid s w') (i : UInt32) :
    w'.pool.current i = w.pool.current i := congrArg (Handle.mk i) (h.generation_eq i.toNat)

/-- Who lives in a slot of the first snapshot at the end lived there before the second. -/
theorem isAlive_of_last? (h : w.Overlaid ⟨xs⟩ u) (h' : u.Overlaid ⟨ys⟩ w') {e : Handle}
    {t : TypeTag} (he : w'.isAlive e) (hx : (Snapshot.last? ⟨xs⟩ e.slot t).isSome) :
    u.isAlive e := by
  obtain ⟨x, hx⟩ := Option.isSome_iff_exists.mp hx
  obtain ⟨hmem, hslot, -⟩ := Snapshot.of_last? hx
  refine SlotPool.isAlive_iff_slotAt.mpr ⟨(h.live_iff _).mpr (Or.inr ⟨x, hmem, hslot⟩), ?_⟩
  rw [← h'.generation_eq]
  exact (SlotPool.isAlive_iff_slotAt.mp he).2

/-- The rule for stamps of components in two steps and in one. -/
theorem stamp_append (h : w.Overlaid ⟨xs⟩ u) (h' : u.Overlaid ⟨ys⟩ w') {α : Type} (a b : α)
    (e : Handle) (t : TypeTag) :
    (if w'.isAlive e ∧ (Snapshot.last? ⟨ys⟩ e.slot t).isSome then a
      else if u.isAlive e ∧ (Snapshot.last? ⟨xs⟩ e.slot t).isSome then a else b) =
    if w'.isAlive e ∧ (Snapshot.last? ⟨xs ++ ys⟩ e.slot t).isSome then a else b := by
  have hor : (Snapshot.last? ⟨xs ++ ys⟩ e.slot t).isSome ↔
      (Snapshot.last? ⟨ys⟩ e.slot t).isSome ∨ (Snapshot.last? ⟨xs⟩ e.slot t).isSome := by
    rw [Snapshot.last?_append, Option.isSome_or, Bool.or_eq_true]
  have hback := fun he hx => h.isAlive_of_last? h' (e := e) (t := t) he hx
  have hforth := h'.isAlive_of_isAlive e
  by_cases he : w'.isAlive e
  · by_cases hy : (Snapshot.last? ⟨ys⟩ e.slot t).isSome
    · rw [if_pos ⟨he, hy⟩, if_pos ⟨he, hor.mpr (Or.inl hy)⟩]
    · rw [if_neg fun hn => hy hn.2]
      refine if_congr ⟨fun hn => ⟨he, hor.mpr (Or.inr hn.2)⟩, fun hn => ?_⟩ rfl rfl
      have hx := (hor.mp hn.2).resolve_left hy
      exact ⟨hback he hx, hx⟩
  · rw [if_neg fun hn => he hn.1, if_neg fun hn => he (hforth hn.1), if_neg fun hn => he hn.1]

/-- Overlays compose. -/
theorem append (h : w.Overlaid ⟨xs⟩ u) (h' : u.Overlaid ⟨ys⟩ w') : w.Overlaid ⟨xs ++ ys⟩ w' where
  live_iff i := by
    rw [h'.live_iff, h.live_iff, or_assoc]
    refine or_congr Iff.rfl ?_
    simp only [List.mem_append, or_and_right, exists_or]
  generation_eq i := (h'.generation_eq i).trans (h.generation_eq i)
  isAlive_of_isAlive e he := h'.isAlive_of_isAlive e (h.isAlive_of_isAlive e he)
  written i t x hx := by
    rw [Snapshot.last?_append] at hx
    cases hy : Snapshot.last? ⟨ys⟩ i t with
    | some y =>
      rw [hy] at hx
      cases hx
      obtain ⟨k, c, v, hs, hd, hv⟩ := h'.written i t x hy
      exact ⟨k, c, v, (synced?_eq_of_forms h.forms_eq t).symm.trans hs, hd, hv⟩
    | none =>
      rw [hy] at hx
      obtain ⟨k, c, v, hs, hd, hv⟩ := h.written i t x hx
      obtain ⟨-, hslot, -⟩ := Snapshot.of_last? hx
      refine ⟨k, c, v, hs, hd, ?_⟩
      -- the second snapshot is silent on the component, so it shows through
      have he : u.isAlive (u.pool.current x.index) := isAlive_of_get? (Option.isSome_of_eq_some hv)
      rw [get?_of_isAlive he] at hv
      have hsilent : Snapshot.last? ⟨ys⟩ (u.pool.current x.index).slot (tagOf k) = none := by
        rw [(isRegistered_of_synced? hs).2, ← hy, ← hslot]
        rfl
      rw [h'.current_eq, get?_of_isAlive (h'.isAlive_of_isAlive _ he), h'.value?_eq _ _ hsilent, hv]
  value?_eq k i hk := by
    rw [Snapshot.last?_append, Option.or_eq_none_iff] at hk
    exact (h'.value?_eq k i hk.1).trans (h.value?_eq k i hk.2)
  createdAt?_eq e := by
    rw [h'.createdAt?_eq, h.createdAt?_eq, h.now_eq]
    have h1 := h.isAlive_of_isAlive e
    have h2 := h'.isAlive_of_isAlive e
    by_cases hw : w.isAlive e
    · simp [hw, h1 hw]
    · by_cases hu : u.isAlive e
      · simp [hw, hu, h2 hu]
      · simp [hw, hu]
  destroyed_eq := h'.destroyed_eq.trans h.destroyed_eq
  updatedAt?_eq e t := by
    rw [h'.updatedAt?_eq, h.updatedAt?_eq, h.now_eq, h.stamp_append h']
  removedAt?_eq e t := by
    rw [h'.removedAt?_eq, h.removedAt?_eq, h.stamp_append h']
  now_eq := h'.now_eq.trans h.now_eq
  forms_eq := h'.forms_eq.trans h.forms_eq
  labels_eq := h'.labels_eq.trans h.labels_eq
  settings_eq := h'.settings_eq.trans h.settings_eq

end Overlaid

/-! ### An entry is an overlay -/

variable {x : SnapshotEntry}

omit [DecidableEq κ] in
/-- The slot of an entry has one occupant then, so its key names one component. -/
theorem isAlive_settle_and_last?_iff (hw : w.pool.WellFormed) (hi : x.index ≠ SlotPool.limit)
    {e : Handle} {t : TypeTag} :
    ((w.settle x.index).isAlive e ∧ (Snapshot.last? ⟨[x]⟩ e.slot t).isSome) ↔
      e = w.pool.current x.index ∧ t = x.tag := by
  have hnew : (w.settle x.index).isAlive (w.pool.current x.index) :=
    (isAlive_settle hw hi).mpr (Or.inl rfl)
  rw [Snapshot.last?_singleton]
  constructor
  · rintro ⟨he, hsome⟩
    split at hsome
    · next hx => exact ⟨SlotPool.eq_of_isAlive he hnew hx.1.symm, hx.2.symm⟩
    · cases hsome
  · rintro ⟨rfl, rfl⟩
    exact ⟨hnew, Option.isSome_of_eq_some (if_pos ⟨rfl, rfl⟩)⟩

/-- What is written into a slot that was settled is read there. -/
theorem get?_write_settle (hw : w.pool.WellFormed) {i : UInt32} (hi : i ≠ SlotPool.limit)
    (hk : w.isRegistered k) (v : Value k) {w' : World κ}
    (h : w' = (w.settle i).write k (w.pool.current i) (some v)) :
    w'.get? k (w'.pool.current i) = some v := by
  have hnew : w'.isAlive (w.pool.current i) := by
    rw [h]
    exact (isAlive_settle hw hi).mpr (Or.inl rfl)
  have hsame : w'.pool.current i = w.pool.current i := (SlotPool.eq_current_of_isAlive hnew).symm
  have hread : w'.value? k i.toNat = some v := by
    rw [h]
    exact value?_write_self ((isRegistered_settle k).trans hk) (w.pool.current i) (some v)
  rw [hsame, get?_of_isAlive hnew]
  exact hread

/-- A replayed entry is laid over the world. -/
theorem overlaid_entry (hw : w.pool.WellFormed) (h : w.Replayable x) :
    w.Overlaid ⟨[x]⟩ (after (restoreEntry x) w) := by
  obtain ⟨k, c, v, hs, hi, hd⟩ := h
  obtain ⟨hk, htag⟩ := isRegistered_of_synced? hs
  obtain ⟨⟨hupdated, hremoved⟩, hdestroyed, hnow⟩ := stamps_settle w x.index
  have halive : ∀ e, (w.settle x.index).isAlive e ↔ e = w.pool.current x.index ∨ w.isAlive e :=
    fun e => isAlive_settle hw hi
  have hkey : ∀ e t, (e = w.pool.current x.index ∧ t = tagOf k) ↔
      (w.settle x.index).isAlive e ∧ (Snapshot.last? ⟨[x]⟩ e.slot t).isSome := by
    intro e t
    rw [isAlive_settle_and_last?_iff hw hi, htag]
  rw [after_of_ok (restoreEntry_eq hw hi hs hd)]
  exact {
    live_iff := fun i => by
      change ((w.settle x.index).pool.slotAt i).live = true ↔ _
      rw [slotAt_settle hw hi]
      simp only [List.mem_singleton, exists_eq_left]
      split
      · next hix => simp [hix]
      · next hix => simp [Ne.symm hix]
    generation_eq := fun i => by
      change ((w.settle x.index).pool.slotAt i).generation = _
      rw [slotAt_settle hw hi]
      split <;> rfl
    isAlive_of_isAlive := fun e he => (halive e).mpr (Or.inr he)
    written := fun i t y hy => by
      rw [Snapshot.last?_singleton] at hy
      split at hy
      · next hx =>
        cases hy
        exact ⟨k, c, v, hx.2 ▸ hs, hd, get?_write_settle hw hi hk v rfl⟩
      · cases hy
    value?_eq := fun k' i hnone => by
      refine (value?_write_of_ne _ _ ?_).trans (value?_settle x.index)
      rintro rfl rfl
      rw [Snapshot.last?_singleton, if_pos ⟨rfl, htag.symm⟩] at hnone
      cases hnone
    createdAt?_eq := fun e => by
      change (w.settle x.index).journal.createdAt? e = _
      rw [createdAt?_settle]
      refine if_congr (and_congr_left fun hd => ?_) rfl rfl
      exact ((halive e).trans (or_iff_left hd)).symm
    destroyed_eq := hdestroyed
    updatedAt?_eq := fun e t => by
      change ((w.settle x.index).journal.recordUpdate _ _).updatedAt? e t = _
      rw [Journal.updatedAt?_recordUpdate, hupdated, hnow]
      exact if_congr (hkey e t) rfl rfl
    removedAt?_eq := fun e t => by
      change ((w.settle x.index).journal.recordUpdate _ _).removedAt? e t = _
      rw [Journal.removedAt?_recordUpdate, hremoved]
      exact if_congr (hkey e t) rfl rfl
    now_eq := hnow
    forms_eq := (forms_rework _).trans (forms_settle w x.index)
    labels_eq := labels_settle w x.index
    settings_eq := settings_settle w x.index }

/-! ### A snapshot is an overlay -/

/-- A replay lays its entries over the world, one over the other. -/
theorem overlaid_replay (hw : w.pool.WellFormed) {xs : List SnapshotEntry}
    (h : ∀ x ∈ xs, w.Replayable x) : w.Overlaid ⟨xs⟩ (w.replay xs) := by
  induction xs generalizing w with
  | nil => exact .nil w
  | cons x xs ih =>
    have hx := h x List.mem_cons_self
    obtain ⟨-, hp, -⟩ := hx.step hw
    exact (overlaid_entry hw hx).append (ih hp (replayable_of_cons hw h))

/-- **A restored snapshot is an overlay.** Its slots come to life in the generation
they are in and are recorded, and whoever was alive stays alive. Each component
that it lists, however often, is the one its last entry tells, stamped as
written now and not as removed. All other components and stamps, and all labels,
generations and kinds, are what they were. -/
theorem Exposed.overlaid_restore (hw : w.Exposed) {s : Snapshot} {w' : World κ}
    (h : restore s w = .ok () w') : w.Overlaid s w' := by
  obtain ⟨hr, rfl⟩ := replay_of_restore hw.pool_wellFormed h
  exact overlaid_replay hw.pool_wellFormed hr

/-- A particle in slot 2 that is told of twice, and one in slot 0 between. -/
def layered : Snapshot :=
  let tag := tagOf (Stocked.particle : Stocked Empty)
  ⟨[⟨2, tag, [0, 0, 0, 0, 0, 0, 0, 0]⟩, ⟨0, tag, [1, 0, 0, 0, 0, 0, 0, 0]⟩,
    ⟨2, tag, [2, 0, 0, 0, 3, 0, 0, 0]⟩]⟩

/-- Laid over the world of one particle, in slot 0. -/
theorem overlaid_layered :
    restore layered oneParticle = .ok () (oneParticle.replay layered.entries) ∧
      oneParticle.Overlaid layered (oneParticle.replay layered.entries) := by
  have hw : oneParticle.Reachable :=
    ReachableBy.run (.start (s := {}) rfl) ⟨trivial, trivial, trivial, trivial⟩
  have hc : oneParticle.check layered.entries = .ok () := by decide +kernel
  have h := restore_of_check hw.wellFormed.pool hc
  exact ⟨h, hw.exposed.overlaid_restore h⟩

end World
end EntityWorld
