/-
# Restored worlds converge

What a world becomes by a replay is decided by the last entry of each component
that the replay tells of (`World.replay_eq_of_last?`), down to the order of the
queue of free slots and the lengths of the columns. So worlds that are fed the
same entries in different orders become equal, if no component is told of
twice, and a world that is fed a snapshot again does not change.

The overlay of a snapshot (`World.Overlaid`) tells of slots, components, stamps
and labels. What it leaves open is the room that a world sets aside, in its pool
and in its columns (`World.Widened`).

Key definitions: `World.extent`, `World.Widened`.
Key theorems: `World.widened_replay`, `World.replay_eq_of_last?`,
`World.Reachable.restore_converges`.
-/
import EntityWorld.Proofs.ClaimOrder
import EntityWorld.Proofs.Overlay
import EntityWorld.Proofs.Rollback
import Mathlib.Tactic

namespace EntityWorld

/-! ### The last entry of a component -/

namespace Snapshot

variable {xs ys : List SnapshotEntry} {x : SnapshotEntry} {i : Nat} {t : TypeTag}

theorem isSome_last?_iff : (last? ⟨xs⟩ i t).isSome ↔ ∃ x ∈ xs, x.index.toNat = i ∧ x.tag = t := by
  constructor
  · intro h
    obtain ⟨x, hx⟩ := Option.isSome_iff_exists.mp h
    exact ⟨x, of_last? hx⟩
  · rintro ⟨x, hx, hkey⟩
    have hmem : x ∈ xs.filter fun x => x.index.toNat = i ∧ x.tag = t :=
      List.mem_filter.mpr ⟨hx, by simpa using hkey⟩
    exact List.getLast?_isSome.mpr (List.ne_nil_of_mem hmem)

/-- The components that entries tell of are those that they tell of last. -/
theorem exists_entry_iff {s s' : Snapshot} (h : ∀ i t, s.last? i t = s'.last? i t) :
    (∃ x ∈ s.entries, x.index.toNat = i ∧ x.tag = t) ↔
      ∃ x ∈ s'.entries, x.index.toNat = i ∧ x.tag = t := by
  rw [← isSome_last?_iff, ← isSome_last?_iff]
  exact Bool.eq_iff_iff.mp (congrArg Option.isSome (h i t))

/-- Where no component is told of twice, its only entry is the last one. -/
theorem last?_eq_some_iff (hd : (xs.map fun x => (x.index, x.tag)).Nodup) :
    last? ⟨xs⟩ i t = some x ↔ x ∈ xs ∧ x.index.toNat = i ∧ x.tag = t := by
  refine ⟨of_last?, fun h => ?_⟩
  obtain ⟨y, hy⟩ := Option.isSome_iff_exists.mp (isSome_last?_iff.mpr ⟨x, h⟩)
  obtain ⟨hmem, hi, ht⟩ := of_last? hy
  have hkey : (y.index, y.tag) = (x.index, x.tag) :=
    Prod.ext (UInt32.toNat_inj.mp (hi.trans h.2.1.symm)) (ht.trans h.2.2.symm)
  rw [hy, List.inj_on_of_nodup_map hd hmem h.1 hkey]

theorem last?_eq_of_perm (hp : ys.Perm xs) (hd : (xs.map fun x => (x.index, x.tag)).Nodup) :
    last? ⟨ys⟩ i t = last? ⟨xs⟩ i t := by
  have hd' := (hp.map fun x => (x.index, x.tag)).nodup_iff.mpr hd
  refine Option.ext fun x => ?_
  rw [last?_eq_some_iff hd, last?_eq_some_iff hd', hp.mem_iff]

theorem last?_append_self : last? ⟨xs ++ xs⟩ i t = last? ⟨xs⟩ i t := by
  rw [last?_append, Option.or_self]

end Snapshot

variable {κ : Type} [Family κ] [DecidableEq κ]

namespace World

variable {w u w' : World κ} {k : κ}

/-! ### The room of a world -/

/-- The number of positions in the column of a kind. -/
def extent (w : World κ) (k : κ) : Nat := ((w.column? k).map (·.size)).getD 0

/-- `w'` has room for the entries of a snapshot and no more than that or than `w` had. -/
structure Widened (w : World κ) (s : Snapshot) (w' : World κ) : Prop where
  claimed : w.pool.Claimed (fun i => ∃ x ∈ s.entries, x.index.toNat = i) w'.pool
  extent_le_iff : ∀ k n, w.isRegistered k → (w'.extent k ≤ n ↔
    w.extent k ≤ n ∧ ∀ x ∈ s.entries, x.tag = tagOf k → x.index.toNat < n)

theorem extent_write_self (hk : w.isRegistered k) (e : Handle) (o : Option (Value k)) :
    (w.write k e o).extent k = max (w.extent k) (e.slot + 1) := by
  obtain ⟨c, hc⟩ := Option.isSome_iff_exists.mp (isRegistered_iff_column?.mp hk)
  rw [extent, extent, column?_write, hc]
  exact Column.size_put c e.slot o

theorem extent_write_of_ne {k' : κ} (hk : k' ≠ k) (e : Handle) (o : Option (Value k)) :
    (w.write k e o).extent k' = w.extent k' := by
  rw [extent, column?_write_of_ne e o hk, extent]

theorem extent_settle (i : UInt32) : (w.settle i).extent k = w.extent k := by
  unfold extent
  rw [column?_settle]

omit [DecidableEq κ] in
theorem claimed_settle (hw : w.pool.WellFormed) {i : UInt32} (hi : i ≠ SlotPool.limit) :
    w.pool.Claimed (· = i.toNat) (w.settle i).pool := by
  unfold settle
  split
  · next ha =>
    refine .of_live hw ?_
    rintro j rfl
    exact SlotPool.isAlive_current.mp ha
  · next hv => exact SlotPool.claimed_of_claim hw (claim_current hw hi hv)

theorem isRegistered_eq_of_forms (h : w'.forms = w.forms) (k : κ) :
    w'.isRegistered k = w.isRegistered k := by
  have hform : ∀ u : World κ, u.isRegistered k = u.forms.any (·.1 = k) := by
    intro u
    rw [forms, List.any_map]
    rfl
  rw [hform, hform, h]

namespace Widened

variable {xs ys : List SnapshotEntry}

theorem nil (hw : w.pool.WellFormed) : w.Widened ⟨[]⟩ w where
  claimed := .of_live hw (by simp)
  extent_le_iff k n _ := by simp

/-- Room is made for one snapshot after another. -/
theorem append (h : w.Widened ⟨xs⟩ u) (h' : u.Widened ⟨ys⟩ w') (hf : u.forms = w.forms) :
    w.Widened ⟨xs ++ ys⟩ w' where
  claimed := by
    refine (h.claimed.trans h'.claimed).congr fun i => ?_
    simp only [List.mem_append, or_and_right, exists_or]
  extent_le_iff k n hk := by
    have hku : u.isRegistered k := (isRegistered_eq_of_forms hf k).trans hk
    rw [h'.extent_le_iff k n hku, h.extent_le_iff k n hk, and_assoc, ← List.forall_mem_append]

end Widened

/-! ### A replay makes room -/

/-- Where tags are distinct, the tag of a registered kind is that kind's only. -/
theorem eq_of_tagOf_eq {k' : κ} (hw : w.TagsDistinct) (hk' : w.isRegistered k')
    (hk : w.isRegistered k) (h : tagOf k' = tagOf k) : k' = k := by
  obtain ⟨r', hr', rfl⟩ := isRegistered_iff.mp hk'
  obtain ⟨r, hr, rfl⟩ := isRegistered_iff.mp hk
  rw [List.inj_on_of_nodup_map hw hr' hr h]

theorem widened_entry (hw : w.WellFormed) {x : SnapshotEntry} (h : w.Replayable x) :
    w.Widened ⟨[x]⟩ (after (restoreEntry x) w) := by
  obtain ⟨k, c, v, hs, hi, hd⟩ := h
  obtain ⟨hk, htag⟩ := isRegistered_of_synced? hs
  rw [after_of_ok (restoreEntry_eq hw.pool hi hs hd)]
  refine ⟨(claimed_settle hw.pool hi).congr fun j => ?_, fun k' n hk' => ?_⟩
  · simp [eq_comm]
  · simp only [List.mem_singleton, forall_eq]
    by_cases hkk : k' = k
    · subst hkk
      rw [extent_write_self ((isRegistered_settle k').trans hk), extent_settle, max_le_iff]
      refine and_congr_right fun _ => ?_
      exact (imp_iff_right htag.symm).symm
    · have hne : x.tag ≠ tagOf k' := fun ht =>
        hkk (eq_of_tagOf_eq hw.tagsDistinct hk' hk (ht.symm.trans htag.symm))
      rw [extent_write_of_ne hkk, extent_settle]
      exact (and_iff_left fun ht => absurd ht hne).symm

theorem widened_replay (hw : w.WellFormed) {xs : List SnapshotEntry}
    (h : ∀ x ∈ xs, w.Replayable x) : w.Widened ⟨xs⟩ (w.replay xs) := by
  induction xs generalizing w with
  | nil => exact .nil hw.pool
  | cons x xs ih =>
    have hx := h x List.mem_cons_self
    have hrest := ih (hw.restoreEntry hx) (replayable_of_cons hw.pool h)
    exact (widened_entry hw hx).append hrest (overlaid_entry hw.pool hx).forms_eq

/-! ### What decides a world -/

/-- The registrations are told by their forms and the columns of their kinds. -/
theorem registrations_eq_map (hw : w.TagsDistinct) :
    w.registrations = w.forms.map fun s => ⟨s.1, (w.column? s.1).getD {}, s.2⟩ := by
  rw [forms, List.map_map]
  have hback : ∀ r ∈ w.registrations,
      r = (⟨r.kind, (w.column? r.kind).getD {}, r.codec⟩ : Registration κ) := by
    intro r hr
    rw [column?_of_mem hw hr]
    rfl
  exact (List.map_id _).symm.trans (List.map_congr_left hback)

section Decided

variable {s s' : Snapshot} {u' : World κ}

/-- The value that the last entry of a component tells. -/
theorem Overlaid.value?_of_last? (h : w.Overlaid s u) (hw : w.TagsDistinct) (hk : w.isRegistered k)
    {i : Nat} {x : SnapshotEntry} (hx : s.last? i (tagOf k) = some x) :
    ∃ c : Codec (Value k), ∃ v, w.synced? (tagOf k) = some ⟨k, c⟩ ∧ c.decode x.data = .ok v ∧
      u.value? k i = some v := by
  obtain ⟨k', c, v, hs, hd, hv⟩ := h.written i _ x hx
  obtain ⟨hk', htag⟩ := isRegistered_of_synced? hs
  obtain rfl := eq_of_tagOf_eq hw hk' hk htag
  obtain ⟨-, hi, -⟩ := Snapshot.of_last? hx
  have he := isAlive_of_get? (Option.isSome_of_eq_some hv)
  rw [get?_of_isAlive he] at hv
  exact ⟨c, v, hs, hd, hi ▸ hv⟩

/-- Overlays that tell of a component alike read it alike. -/
theorem value?_eq_of_last? (h : w.Overlaid s u) (h' : w.Overlaid s' u') (hw : w.TagsDistinct)
    (hk : w.isRegistered k) (hlast : ∀ i t, s.last? i t = s'.last? i t) (i : Nat) :
    u.value? k i = u'.value? k i := by
  cases hx : s.last? i (tagOf k) with
  | none => rw [h.value?_eq k i hx, h'.value?_eq k i ((hlast i _).symm.trans hx)]
  | some x =>
    obtain ⟨c, v, hs, hd, hv⟩ := h.value?_of_last? hw hk hx
    obtain ⟨c', v', hs', hd', hv'⟩ := h'.value?_of_last? hw hk ((hlast i _).symm.trans hx)
    have hc : c = c' := by
      rw [hs'] at hs
      cases hs
      rfl
    have hvv : v = v' := Except.ok.inj (hd.symm.trans (hc ▸ hd'))
    rw [hv, hv', hvv]

/-- Entries for the same components need the same room. -/
theorem extent_le_of_last? (h : w.Widened s u) (h' : w.Widened s' u') (hk : w.isRegistered k)
    (hlast : ∀ i t, s.last? i t = s'.last? i t) : u.extent k ≤ u'.extent k := by
  obtain ⟨hold, hnew⟩ := (h'.extent_le_iff k _ hk).mp (le_refl _)
  refine (h.extent_le_iff k _ hk).mpr ⟨hold, fun x hx ht => ?_⟩
  obtain ⟨y, hy, hi, hty⟩ := (Snapshot.exists_entry_iff hlast).mp ⟨x, hx, rfl, ht⟩
  rw [← hi]
  exact hnew y hy hty

theorem column?_eq_of_last? (h : w.Overlaid s u) (h' : w.Overlaid s' u') (hr : w.Widened s u)
    (hr' : w.Widened s' u') (hw : w.TagsDistinct)
    (hlast : ∀ i t, s.last? i t = s'.last? i t) (k : κ) : u.column? k = u'.column? k := by
  have hreg : ∀ v : World κ, v.forms = w.forms → ((v.column? k).isSome ↔ w.isRegistered k) := by
    intro v hv
    rw [← isRegistered_iff_column?, isRegistered_eq_of_forms hv]
  by_cases hk : w.isRegistered k
  · obtain ⟨c, hc⟩ := Option.isSome_iff_exists.mp ((hreg u h.forms_eq).mpr hk)
    obtain ⟨c', hc'⟩ := Option.isSome_iff_exists.mp ((hreg u' h'.forms_eq).mpr hk)
    have hsize : u.extent k = u'.extent k :=
      le_antisymm (extent_le_of_last? hr hr' hk hlast)
        (extent_le_of_last? hr' hr hk fun i t => (hlast i t).symm)
    rw [extent, hc, extent, hc'] at hsize
    have hvalue : ∀ i, c.get? i = c'.get? i := by
      intro i
      have hv := value?_eq_of_last? h h' hw hk hlast i
      rwa [value?, hc, value?, hc'] at hv
    rw [hc, hc', Column.eq_of_get?_eq hsize hvalue]
  · have hnone : ∀ v : World κ, v.forms = w.forms → v.column? k = none := fun v hv =>
      Option.not_isSome_iff_eq_none.mp fun hs => hk ((hreg v hv).mp hs)
    rw [hnone u h.forms_eq, hnone u' h'.forms_eq]

theorem pool_eq_of_last? (h : w.Widened s u) (h' : w.Widened s' u') (hu : u.pool.WellFormed)
    (hu' : u'.pool.WellFormed) (hlast : ∀ i t, s.last? i t = s'.last? i t) : u.pool = u'.pool := by
  have hslots : ∀ i, (∃ x ∈ s'.entries, x.index.toNat = i) ↔ ∃ x ∈ s.entries, x.index.toNat = i := by
    intro i
    constructor
    · rintro ⟨x, hx, hi⟩
      obtain ⟨y, hy, hyi, -⟩ := (Snapshot.exists_entry_iff hlast).mpr ⟨x, hx, hi, rfl⟩
      exact ⟨y, hy, hyi⟩
    · rintro ⟨x, hx, hi⟩
      obtain ⟨y, hy, hyi, -⟩ := (Snapshot.exists_entry_iff hlast).mp ⟨x, hx, hi, rfl⟩
      exact ⟨y, hy, hyi⟩
  exact h.claimed.unique (h'.claimed.congr hslots) hu hu'

theorem journal_eq_of_last? (h : w.Overlaid s u) (h' : w.Overlaid s' u') (hp : u.pool = u'.pool)
    (hlast : ∀ i t, s.last? i t = s'.last? i t) : u.journal = u'.journal := by
  have halive : ∀ e, u.isAlive e = u'.isAlive e := fun e => congrArg (·.isAlive e) hp
  have hcreated : u.journal.created = u'.journal.created := by
    refine Std.ExtTreeMap.ext_getElem? fun e => ?_
    have hc := h.createdAt?_eq e
    rw [halive e, ← h'.createdAt?_eq e] at hc
    exact hc
  have hupdated : u.journal.updated = u'.journal.updated := by
    refine Std.ExtTreeMap.ext_getElem? fun x => ?_
    have hc := h.updatedAt?_eq x.entity x.tag
    rw [halive, hlast, ← h'.updatedAt?_eq] at hc
    exact hc
  have hremoved : u.journal.removed = u'.journal.removed := by
    refine Std.ExtTreeMap.ext_getElem? fun x => ?_
    have hc := h.removedAt?_eq x.entity x.tag
    rw [halive, hlast, ← h'.removedAt?_eq] at hc
    exact hc
  have hdestroyed := h.destroyed_eq.trans h'.destroyed_eq.symm
  have hnow := h.now_eq.trans h'.now_eq.symm
  cases hj : u.journal
  cases hj' : u'.journal
  rw [hj, hj'] at hcreated hupdated hremoved hdestroyed hnow
  cases hcreated
  cases hupdated
  cases hremoved
  cases hdestroyed
  cases hnow
  rfl

end Decided

/-- The last entries decide the world that a replay leaves. -/
theorem replay_eq_of_last? (hw : w.WellFormed) {xs ys : List SnapshotEntry}
    (hx : ∀ x ∈ xs, w.Replayable x) (hy : ∀ y ∈ ys, w.Replayable y)
    (hlast : ∀ i t, Snapshot.last? ⟨xs⟩ i t = Snapshot.last? ⟨ys⟩ i t) :
    w.replay xs = w.replay ys := by
  have hu := hw.replay hx
  have hu' := hw.replay hy
  have ho := overlaid_replay hw.pool hx
  have ho' := overlaid_replay hw.pool hy
  have hr := widened_replay hw hx
  have hr' := widened_replay hw hy
  have hpool := pool_eq_of_last? hr hr' hu.pool hu'.pool hlast
  have hjournal := journal_eq_of_last? ho ho' hpool hlast
  have hregistrations : (w.replay xs).registrations = (w.replay ys).registrations := by
    have hcolumn := funext (column?_eq_of_last? ho ho' hr hr' hw.tagsDistinct hlast)
    rw [registrations_eq_map hu.tagsDistinct, registrations_eq_map hu'.tagsDistinct,
      ho.forms_eq, ho'.forms_eq, hcolumn]
  have hlabels := ho.labels_eq.trans ho'.labels_eq.symm
  have hsettings := ho.settings_eq.trans ho'.settings_eq.symm
  cases hs : w.replay xs
  cases hs' : w.replay ys
  rw [hs, hs'] at hpool hjournal hregistrations hlabels hsettings
  cases hpool
  cases hjournal
  cases hregistrations
  cases hlabels
  cases hsettings
  rfl

/-! ### Restoring in another order, and again -/

omit [DecidableEq κ] in
theorem check_perm {s s' : Snapshot} (hp : s'.entries.Perm s.entries)
    (h : w.check s.entries = .ok ()) : w.check s'.entries = .ok () := by
  rw [check_eq_ok_iff] at h ⊢
  exact fun x hx => h x (hp.mem_iff.mp hx)

/-- Where a snapshot was restored, it passes the check again. -/
theorem check_replay (hw : w.WellFormed) {s : Snapshot} (h : w.check s.entries = .ok ()) :
    (w.replay s.entries).check s.entries = .ok () := by
  have hr := replayable_of_check h
  have ho := overlaid_replay hw.pool hr
  rw [check_eq_ok_iff] at h ⊢
  intro x hx
  obtain ⟨k, c, v, hs, -, hd⟩ := checkEntry_eq_ok_iff.mp (h x hx)
  -- its slots are open by now, whatever the settings allow
  have hlive := (ho.live_iff x.index.toNat).mpr (Or.inr ⟨x, hx, rfl⟩)
  have hclaim := (Extends.refl (w.replay s.entries)).mayClaim (hw.replay hr).pool
    (SlotPool.lt_size_of_live hlive)
  exact checkEntry_eq_ok_iff.mpr
    ⟨k, c, v, (synced?_eq_of_forms ho.forms_eq x.tag).trans hs, hclaim, hd⟩

/-- **Restored worlds converge.** A snapshot that a reachable world accepts leaves
the same world in whatever order its entries stand, if no two of them are for
one component; and in any case it is accepted again and then changes nothing.
The worlds are the same in all they consist of, the order of the queue and the
lengths of the columns included. -/
theorem Reachable.restore_converges (h : w.Reachable) {s : Snapshot}
    (hs : restore s w = .ok () w') :
    ((s.entries.map fun x => (x.index, x.tag)).Nodup →
      ∀ s' : Snapshot, s'.entries.Perm s.entries → restore s' w = .ok () w') ∧
    restore s w' = .ok () w' := by
  have hw := h.wellFormed
  have hcheck := check_of_restore hs
  obtain ⟨hr, rfl⟩ := replay_of_restore hw.pool hs
  constructor
  · intro hd s' hp
    have hcheck' := check_perm hp hcheck
    rw [restore_of_check hw.pool hcheck']
    congr 1
    exact replay_eq_of_last? hw (replayable_of_check hcheck') hr fun _ _ =>
      Snapshot.last?_eq_of_perm hp hd
  · have hw' := hw.replay hr
    rw [restore_of_check hw'.pool (check_replay hw hcheck)]
    congr 1
    have htwice : (w.replay s.entries).replay s.entries = w.replay (s.entries ++ s.entries) :=
      List.foldl_append.symm
    rw [htwice]
    refine replay_eq_of_last? hw (fun x hx => ?_) hr fun _ _ => Snapshot.last?_append_self
    exact hr x ((List.mem_append.mp hx).elim id id)

/-- Particles in the slots 3 and 1 of a world that has a particle in slot 0 only. -/
def scattered : Snapshot :=
  let tag := tagOf (Stocked.particle : Stocked Empty)
  ⟨[⟨3, tag, [0, 0, 0, 0, 0, 0, 0, 0]⟩, ⟨1, tag, [1, 0, 0, 0, 0, 0, 0, 0]⟩]⟩

/-- Slot 3 opens slot 1, which then leaves the queue; or slot 1 is opened first. -/
theorem restore_converges_scattered :
    restore scattered oneParticle = .ok () (oneParticle.replay scattered.entries) ∧
    restore ⟨scattered.entries.reverse⟩ oneParticle =
      .ok () (oneParticle.replay scattered.entries) ∧
    restore scattered (oneParticle.replay scattered.entries) =
      .ok () (oneParticle.replay scattered.entries) := by
  have hw : oneParticle.Reachable :=
    ReachableBy.run (.start (s := {}) rfl) ⟨trivial, trivial, trivial, trivial⟩
  have hc : oneParticle.check scattered.entries = .ok () := by decide +kernel
  have hd : (scattered.entries.map fun x => (x.index, x.tag)).Nodup := by decide +kernel
  have h := restore_of_check hw.wellFormed.pool hc
  obtain ⟨horder, hagain⟩ := hw.restore_converges h
  exact ⟨h, horder hd _ (List.reverse_perm _), hagain⟩

end World
end EntityWorld
