/-
# Replaying entries

A snapshot is checked against the world as it is before any entry is replayed,
while replaying the first entries may claim slots and open others. What a later
entry needs is not harmed by that: the codecs stay (`Replayable.step`), a slot
that is vacant can be claimed whatever its place (`SlotPool.exists_claim`), and
the entity that then lives in it takes the component. So a snapshot that passes
the check is replayed to its end (`World.restore_of_check`).

Key definitions: `World.settle`, `World.replay`, `World.Replayable`.
Key theorems: `World.restoreEntry_eq`, `World.forM_restoreEntry_eq`,
`World.restore_of_check`, `World.replay_of_restore`.
-/
import EntityWorld.Proofs.Components
import Mathlib.Tactic

namespace EntityWorld

variable {κ : Type} [Family κ]

namespace World

/-! ### The check -/

section Check

variable {w : World κ} {x : SnapshotEntry}

theorem mayClaim_iff {i : UInt32} :
    w.mayClaim i ↔ i ≠ SlotPool.limit ∧ (i < w.pool.next ∨ i < w.settings.slotLimit) := by
  simp [mayClaim]

theorem not_mayClaim_iff {i : UInt32} : ¬ w.mayClaim i ↔
    i = SlotPool.limit ∨ w.pool.next ≤ i ∧ w.settings.slotLimit ≤ i := by
  rw [mayClaim_iff]
  simp only [← UInt32.not_lt]
  tauto

/-- An entry that passes the check: what its tag and its payload stand for. -/
theorem checkEntry_eq_ok_iff : w.checkEntry x = .ok () ↔
    ∃ k, ∃ c : Codec (Value k), ∃ v, w.synced? x.tag = some ⟨k, c⟩ ∧ w.mayClaim x.index ∧
      c.decode x.data = .ok v := by
  unfold checkEntry
  cases hs : w.synced? x.tag with
  | none => simp
  | some s =>
    obtain ⟨k, c⟩ := s
    dsimp only
    constructor
    · intro h
      split at h
      · cases h
      · next hm =>
        cases hd : c.decode x.data with
        | error cause =>
          rw [hd] at h
          cases h
        | ok v => exact ⟨k, c, v, rfl, by simpa using hm, hd⟩
    · rintro ⟨k', c', v, heq, hm, hd⟩
      cases heq
      rw [hm, hd]
      rfl

theorem check_eq_ok_iff {xs : List SnapshotEntry} :
    w.check xs = .ok () ↔ ∀ x ∈ xs, w.checkEntry x = .ok () := by
  induction xs with
  | nil => simp [check, pure, Except.pure]
  | cons x xs ih =>
    have hcons : w.check (x :: xs) = (w.checkEntry x >>= fun _ => w.check xs) := rfl
    rw [hcons, List.forall_mem_cons, ← ih]
    cases w.checkEntry x with
    | error cause => simp [bind, Except.bind]
    | ok u => simp [bind, Except.bind]

end Check

variable {w : World κ} {x : SnapshotEntry} {i : UInt32}

/-! ### Replaying an entry -/

/-- The world in which somebody lives in a slot. -/
def settle (w : World κ) (i : UInt32) : World κ :=
  if w.isAlive (w.pool.current i) then w
  else w.enter (w.pool.current i) (after (SlotPool.claim i) w.pool)

/-- Somebody comes to live in a vacant slot, whichever it is. -/
theorem claim_current (hw : w.pool.WellFormed) (hi : i ≠ SlotPool.limit)
    (hv : ¬ w.isAlive (w.pool.current i)) :
    SlotPool.claim i w.pool = .ok (w.pool.current i) (after (SlotPool.claim i) w.pool) := by
  have hvacant : (w.pool.slotAt i.toNat).live = false :=
    Bool.eq_false_iff.mpr fun hl => hv (SlotPool.isAlive_current.mpr hl)
  obtain ⟨e, q, hc⟩ := SlotPool.exists_claim hi hvacant
  obtain ⟨-, -, he, -⟩ := SlotPool.offers_of_claim hw hc
  rw [after_of_ok hc, hc, he]

theorem occupy_current (hw : w.pool.WellFormed) (hi : i ≠ SlotPool.limit)
    (hv : ¬ w.isAlive (w.pool.current i)) :
    occupy i w = .ok (w.pool.current i)
      (w.enter (w.pool.current i) (after (SlotPool.claim i) w.pool)) := by
  simp only [occupy, claim_current hw hi hv]
  rfl

theorem inhabit_eq (hw : w.pool.WellFormed) (hi : i ≠ SlotPool.limit) :
    inhabit i w = .ok (w.pool.current i) (w.settle i) := by
  unfold inhabit settle
  split
  · rfl
  · next hv => exact occupy_current hw hi hv

/-- The one who lives in the slot then is the one it names. -/
theorem isAlive_settle (hw : w.pool.WellFormed) (hi : i ≠ SlotPool.limit) {e : Handle} :
    (w.settle i).isAlive e ↔ e = w.pool.current i ∨ w.isAlive e := by
  unfold settle
  split
  · next ha => exact ⟨Or.inr, fun h => h.elim (· ▸ ha) id⟩
  · next hv =>
    have hc := claim_current hw hi hv
    exact (SlotPool.enters_of_claim hw hc).1.isAlive_iff

theorem slotAt_settle (hw : w.pool.WellFormed) (hi : i ≠ SlotPool.limit) (j : Nat) :
    (w.settle i).pool.slotAt j =
      if j = i.toNat then { w.pool.slotAt j with live := true } else w.pool.slotAt j := by
  unfold settle
  split
  · next ha =>
    have hl := SlotPool.isAlive_current.mp ha
    split
    · next hj =>
      rw [hj, ← hl]
    · rfl
  · next hv => exact (SlotPool.enters_of_claim hw (claim_current hw hi hv)).1.slotAt_eq j

theorem registrations_settle : (w.settle i).registrations = w.registrations := by
  unfold settle
  split <;> rfl

theorem ofTag?_settle (t : TypeTag) : (w.settle i).ofTag? t = w.ofTag? t := by
  unfold ofTag?
  rw [registrations_settle]

theorem pool_wellFormed_settle (hw : w.pool.WellFormed) (hi : i ≠ SlotPool.limit) :
    (w.settle i).pool.WellFormed := by
  unfold settle
  split
  · exact hw
  · next hv => exact SlotPool.wellFormed_of_claim hw (claim_current hw hi hv)

variable [DecidableEq κ]

theorem isRegistered_settle (k : κ) : (w.settle i).isRegistered k = w.isRegistered k := by
  unfold isRegistered
  rw [registrations_settle]

theorem isRegistered_of_synced? {t : TypeTag} {k : κ} {c : Codec (Value k)}
    (h : w.synced? t = some ⟨k, c⟩) : w.isRegistered k ∧ tagOf k = t := by
  rw [synced?_eq] at h
  obtain ⟨r, hr, hs⟩ := Option.bind_eq_some_iff.mp h
  obtain ⟨c', -, heq⟩ := Option.map_eq_some_iff.mp hs
  cases heq
  exact ⟨isRegistered_iff.mpr ⟨r, mem_of_ofTag? hr, rfl⟩, tag_of_ofTag? hr⟩

/-- What replaying an entry needs of a world. -/
def Replayable (w : World κ) (x : SnapshotEntry) : Prop :=
  ∃ k, ∃ c : Codec (Value k), ∃ v,
    w.synced? x.tag = some ⟨k, c⟩ ∧ x.index ≠ SlotPool.limit ∧ c.decode x.data = .ok v

omit [DecidableEq κ] in
/-- It asks of the world only what the tag stands for. -/
theorem Replayable.congr {w' : World κ} (h : w.Replayable x)
    (hs : w'.synced? x.tag = w.synced? x.tag) : w'.Replayable x := by
  obtain ⟨k, c, v, hk, hi, hd⟩ := h
  exact ⟨k, c, v, hs.trans hk, hi, hd⟩

/-- An entry is replayed by settling its slot and writing its component. -/
theorem restoreEntry_eq (hw : w.pool.WellFormed) (hi : x.index ≠ SlotPool.limit) {k : κ}
    {c : Codec (Value k)} {v : Value k} (hs : w.synced? x.tag = some ⟨k, c⟩)
    (hd : c.decode x.data = .ok v) :
    restoreEntry x w =
      .ok () ((w.settle x.index).write k (w.pool.current x.index) (some v)) := by
  have hk : (w.settle x.index).isRegistered k :=
    (isRegistered_settle k).trans (isRegistered_of_synced? hs).1
  have he : (w.settle x.index).isAlive (w.pool.current x.index) :=
    (isAlive_settle hw hi).mpr (Or.inl rfl)
  have hadd := add_eq k (w.pool.current x.index) v (w.settle x.index)
  rw [refusal?_eq_none_iff.mpr ⟨hk, he⟩] at hadd
  unfold restoreEntry
  rw [hs]
  simp only [inhabit_eq hw hi, hd, EStateM.adaptExcept, hadd]

/-! ### Replaying a snapshot -/

/-- The world after some entries, one after another. -/
def replay (w : World κ) (xs : List SnapshotEntry) : World κ :=
  xs.foldl (fun w x => after (restoreEntry x) w) w

/-- What a replayed entry leaves: the world is fit for the entries to come. -/
theorem Replayable.step (h : w.Replayable x) (hw : w.pool.WellFormed) :
    restoreEntry x w = .ok () (after (restoreEntry x) w) ∧
      (after (restoreEntry x) w).pool.WellFormed ∧
      ∀ t, (after (restoreEntry x) w).synced? t = w.synced? t := by
  obtain ⟨k, c, v, hs, hi, hd⟩ := h
  have heq := restoreEntry_eq hw hi hs hd
  rw [after_of_ok heq]
  refine ⟨heq, pool_wellFormed_settle hw hi, fun t => ?_⟩
  have hwrite : ((w.settle x.index).write k (w.pool.current x.index) (some v)).synced? t =
      (w.settle x.index).synced? t := synced?_rework
  rw [hwrite, synced?_eq, synced?_eq, ofTag?_settle]

/-- What follows an entry can be replayed after it. -/
theorem replayable_of_cons {xs : List SnapshotEntry} (hw : w.pool.WellFormed)
    (h : ∀ y ∈ x :: xs, w.Replayable y) : ∀ y ∈ xs, (after (restoreEntry x) w).Replayable y := by
  obtain ⟨-, -, hs⟩ := (h x List.mem_cons_self).step hw
  -- the slots have changed, but nothing that the other entries need
  exact fun y hy => (h y (List.mem_cons_of_mem x hy)).congr (hs y.tag)

/-- No entry of a snapshot that could be replayed first fails later. -/
theorem forM_restoreEntry_eq {xs : List SnapshotEntry} (hw : w.pool.WellFormed)
    (h : ∀ x ∈ xs, w.Replayable x) : xs.forM restoreEntry w = .ok () (w.replay xs) := by
  induction xs generalizing w with
  | nil => rfl
  | cons x xs ih =>
    obtain ⟨heq, hp, -⟩ := (h x List.mem_cons_self).step hw
    exact (bind_of_ok heq).trans (ih hp (replayable_of_cons hw h))

omit [DecidableEq κ] in
theorem replayable_of_check {xs : List SnapshotEntry} (h : w.check xs = .ok ()) :
    ∀ x ∈ xs, w.Replayable x := by
  intro x hx
  obtain ⟨k, c, v, hs, hm, hd⟩ := checkEntry_eq_ok_iff.mp (check_eq_ok_iff.mp h x hx)
  exact ⟨k, c, v, hs, (mayClaim_iff.mp hm).1, hd⟩

/-- A snapshot that passes the check is replayed. -/
theorem restore_of_check (hw : w.pool.WellFormed) {s : Snapshot} (h : w.check s.entries = .ok ()) :
    restore s w = .ok () (w.replay s.entries) := by
  unfold restore
  rw [h]
  exact forM_restoreEntry_eq hw (replayable_of_check h)

theorem restore_of_check_error {s : Snapshot} {cause : SnapshotError}
    (h : w.check s.entries = .error cause) : restore s w = .error cause w := by
  unfold restore
  rw [h]

theorem check_of_restore {s : Snapshot} {w' : World κ} (h : restore s w = .ok () w') :
    w.check s.entries = .ok () := by
  cases hc : w.check s.entries with
  | ok => rfl
  | error cause =>
    rw [restore_of_check_error hc] at h
    cases h

/-- A snapshot that was restored could be replayed, and was. -/
theorem replay_of_restore (hw : w.pool.WellFormed) {s : Snapshot} {w' : World κ}
    (h : restore s w = .ok () w') :
    (∀ x ∈ s.entries, w.Replayable x) ∧ w' = w.replay s.entries := by
  have hc := check_of_restore h
  rw [restore_of_check hw hc] at h
  cases h
  exact ⟨replayable_of_check hc, rfl⟩

end World
end EntityWorld
