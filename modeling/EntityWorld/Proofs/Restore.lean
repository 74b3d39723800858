/-
# Restoring is all or nothing

`restore` replays a snapshot that passes the check, to its end, and does nothing
else. Where payloads have a fixed layout (`Codec.HasLayout`, as those of the stock
kinds have), what can be wrong with an entry is read off its tag, its index and
the length of its payload (`offence?`).

Key definitions: `World.offence?`, `World.Admits`.
Key theorems: `World.restore_eq_of_hasLayouts`, `World.Reachable.restore_eq`.
-/
import EntityWorld.Proofs.Payloads
import EntityWorld.Proofs.Replay
import EntityWorld.Proofs.WellFormed
import Mathlib.Tactic

namespace EntityWorld

variable {κ : Type} [Family κ]

namespace World

variable {w : World κ} {x : SnapshotEntry}

/-! ### What is wrong with an entry -/

/-- What is wrong with an entry in view of the layouts of payloads, if anything:
its tag comes before its index, and its index before its payload. -/
def offence? (w : World κ) (layout : TypeTag → Nat) (x : SnapshotEntry) : Option SnapshotError :=
  if (w.synced? x.tag).isNone then some (.unknownTag x.tag)
  else if x.index = SlotPool.limit ∨ w.pool.next ≤ x.index ∧ w.settings.slotLimit ≤ x.index then
    some (.handle (.outOfRange x.index))
  else if x.data.length < layout x.tag then
    some (.payload x.index (.tooShort (layout x.tag) x.data.length))
  else none

/-- The layouts of the kinds that take part in snapshots, by their tags. -/
def HasLayouts (w : World κ) (layout : TypeTag → Nat) : Prop :=
  ∀ t k (c : Codec (Value k)), w.synced? t = some ⟨k, c⟩ → c.HasLayout (layout t)

theorem hasLayouts_of_registrations {layout : TypeTag → Nat}
    (h : ∀ r ∈ w.registrations, ∀ c, r.codec = some c → c.HasLayout (layout r.tag)) :
    w.HasLayouts layout := by
  intro t k c hs
  obtain ⟨r, hr, hc⟩ := Option.bind_eq_some_iff.mp hs
  obtain ⟨c', hc', heq⟩ := Option.map_eq_some_iff.mp hc
  cases heq
  rw [← tag_of_ofTag? hr]
  exact h r (mem_of_ofTag? hr) c' hc'

theorem checkEntry_eq_of_hasLayouts {layout : TypeTag → Nat} (h : w.HasLayouts layout)
    (x : SnapshotEntry) : w.checkEntry x =
      match w.offence? layout x with
      | some cause => .error cause
      | none => .ok () := by
  unfold checkEntry offence?
  cases hs : w.synced? x.tag with
  | none => rfl
  | some s =>
    obtain ⟨k, c⟩ := s
    have hl := h x.tag k c hs x.data
    simp only [Option.isNone_some, Bool.false_eq_true, if_false]
    by_cases hm : w.mayClaim x.index
    · have hin := not_mayClaim_iff.not.mp (not_not.mpr hm)
      rw [if_neg (by simp [hm]), if_neg hin]
      split at hl
      · next hlt =>
        rw [if_pos hlt, hl]
      · next hlt =>
        obtain ⟨v, hv⟩ := hl
        rw [if_neg hlt, hv]
    · rw [if_pos (by simp [hm]), if_pos (not_mayClaim_iff.mp hm)]

/-- What a world asks of an entry: a kind that takes part in snapshots, a slot that
is handed out already or may be opened, and a payload that is long enough. -/
def Admits (w : World κ) (layout : TypeTag → Nat) (x : SnapshotEntry) : Prop :=
  (w.synced? x.tag).isSome ∧
    (x.index ≠ SlotPool.limit ∧ (x.index < w.pool.next ∨ x.index < w.settings.slotLimit)) ∧
    layout x.tag ≤ x.data.length

theorem offence?_eq_none_iff {layout : TypeTag → Nat} :
    w.offence? layout x = none ↔ w.Admits layout x := by
  unfold offence? Admits
  simp only [← mayClaim_iff, ← not_mayClaim_iff]
  cases w.synced? x.tag with
  | none => simp
  | some s => by_cases hm : w.mayClaim x.index <;> simp [hm]

/-! ### All or nothing -/

/-- The check finds the first entry that cannot be restored. -/
theorem check_eq (w : World κ) (xs : List SnapshotEntry) : w.check xs =
    match xs.findSome? fun x => match w.checkEntry x with
      | .error cause => some cause
      | .ok _ => none with
    | some cause => .error cause
    | none => .ok () := by
  induction xs with
  | nil => rfl
  | cons x xs ih =>
    have hcons : w.check (x :: xs) = (w.checkEntry x >>= fun _ => w.check xs) := rfl
    rw [hcons, List.findSome?_cons]
    cases w.checkEntry x with
    | error cause => rfl
    | ok u => exact ih

variable [DecidableEq κ]

/-- The first entry at fault decides, and then nothing has happened. -/
theorem restore_eq_of_hasLayouts (hp : w.pool.WellFormed) {layout : TypeTag → Nat}
    (hl : w.HasLayouts layout) (s : Snapshot) :
    restore s w = match s.entries.findSome? (w.offence? layout) with
      | some cause => .error cause w
      | none => .ok () (w.replay s.entries) := by
  have hfind : (fun x => match w.checkEntry x with
      | .error cause => some cause
      | .ok _ => none) = w.offence? layout := by
    funext x
    rw [checkEntry_eq_of_hasLayouts hl x]
    cases w.offence? layout x <;> rfl
  have hcheck := check_eq w s.entries
  rw [hfind] at hcheck
  cases ho : s.entries.findSome? (w.offence? layout) with
  | some cause =>
    rw [ho] at hcheck
    exact restore_of_check_error hcheck
  | none =>
    rw [ho] at hcheck
    exact restore_of_check hp hcheck

/-- **Restoring is all or nothing.** It succeeds for the snapshots whose entries
the world admits, all of them. If an entry is at fault, the first one that is
decides the error and the world stays as it was; otherwise every entry is
replayed. The fault is found by the check at the latest: what passes it is
replayed without an error. -/
theorem Reachable.restore_eq (hw : w.Reachable) {layout : TypeTag → Nat}
    (hl : w.HasLayouts layout) (s : Snapshot) :
    ((∃ w', restore s w = .ok () w') ↔ ∀ x ∈ s.entries, w.Admits layout x) ∧
    (restore s w = match s.entries.findSome? (w.offence? layout) with
      | some cause => .error cause w
      | none => .ok () (w.replay s.entries)) ∧
    (w.check s.entries = .ok () →
      s.entries.forM restoreEntry w = .ok () (w.replay s.entries)) := by
  have hp := hw.wellFormed.pool
  have hreplay : w.check s.entries = .ok () →
      s.entries.forM restoreEntry w = .ok () (w.replay s.entries) :=
    fun hc => forM_restoreEntry_eq hp (replayable_of_check hc)
  have hrestore := restore_eq_of_hasLayouts hp hl s
  refine ⟨?_, hrestore, hreplay⟩
  have hadmits : (∀ x ∈ s.entries, w.Admits layout x) ↔
      s.entries.findSome? (w.offence? layout) = none := by
    rw [List.findSome?_eq_none_iff]
    exact forall₂_congr fun _ _ => offence?_eq_none_iff.symm
  rw [hadmits, hrestore]
  cases s.entries.findSome? (w.offence? layout) with
  | none => simp
  | some cause => simp

/-- Two particles, the second one cut short. -/
def torn : Snapshot :=
  ⟨[⟨2, tagOf (Stocked.particle : Stocked Empty), [0, 0, 0, 0, 0, 0, 0, 0]⟩,
    ⟨0, tagOf (Stocked.particle : Stocked Empty), [0, 0, 0]⟩]⟩

/-- The first particle does not open its slot either. -/
theorem restore_eq_torn :
    restore torn emptied = .error (.payload 0 (.tooShort 8 3)) emptied := by
  have hl : emptied.HasLayouts fun _ => 8 := by
    refine hasLayouts_of_registrations fun r hr c hc => ?_
    have hr : r = ⟨.particle, ⟨#[none]⟩, some Particle.codec⟩ := List.mem_singleton.mp hr
    subst hr
    cases hc
    exact Codec.hasLayout_ofFields 2 Particle.fields Particle.ofFields
  have hf : torn.entries.findSome? (emptied.offence? fun _ => 8) =
      some (.payload 0 (.tooShort 8 3)) := by decide +kernel
  have h := (reachable_emptied.restore_eq hl torn).2.1
  rw [hf] at h
  exact h

end World
end EntityWorld
