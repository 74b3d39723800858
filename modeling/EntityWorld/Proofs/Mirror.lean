/-
# Mirroring a world

A capture is told by the kinds that take part in snapshots and by the bytes of
their components slot by slot (`capture_entries_eq`), whatever the generations
of the slots and whoever else lives there. Replaying a capture into a world
where nobody has lived yet brings back these bytes and makes live the slots
that have any (`replay_spec`), so that the second world has the same capture.

On the way the capture is written as a message and read again; as each payload
was written by the codec of its kind, it is one that the codec reads.

Key definitions: `World.synced`, `World.Restored`, `World.Genuine`,
`Operation.Registers`.
Key theorems: `World.capture_entries_eq`, `World.restored_restoreEntry`,
`World.replay_spec`, `World.Reachable.mirror`.
-/
import EntityWorld.Proofs.Capture
import EntityWorld.Proofs.Message
import EntityWorld.Proofs.Restore
import Mathlib.Tactic

namespace EntityWorld

variable {κ : Type} [Family κ]

namespace World

/-- The kinds that take part in snapshots, in the order of registration. -/
def synced (w : World κ) : List ((k : κ) × Codec (Value k)) := w.registrations.filterMap (·.synced?)

variable {w w' : World κ} {i : Nat} {t : TypeTag}

theorem tagOf_of_synced? {r : Registration κ} {s : (k : κ) × Codec (Value k)}
    (h : r.synced? = some s) : tagOf s.1 = r.tag := by
  obtain ⟨c, -, rfl⟩ := Option.map_eq_some_iff.mp h
  rfl

theorem synced?_eq_some_iff (hw : w.TagsDistinct) {s : (k : κ) × Codec (Value k)} :
    w.synced? t = some s ↔ s ∈ w.synced ∧ tagOf s.1 = t := by
  rw [synced?_eq, synced]
  constructor
  · intro h
    obtain ⟨r, hr, hs⟩ := Option.bind_eq_some_iff.mp h
    exact ⟨List.mem_filterMap.mpr ⟨r, mem_of_ofTag? hr, hs⟩,
      (tagOf_of_synced? hs).trans (tag_of_ofTag? hr)⟩
  · rintro ⟨hmem, rfl⟩
    obtain ⟨r, hr, hs⟩ := List.mem_filterMap.mp hmem
    have ht : w.ofTag? (tagOf s.1) = some r :=
      (ofTag?_eq_some_iff hw).mpr ⟨hr, (tagOf_of_synced? hs).symm⟩
    rw [ht]
    exact hs

theorem synced?_congr (hw : w.TagsDistinct) (hw' : w'.TagsDistinct) (hs : w'.synced = w.synced) :
    w'.synced? t = w.synced? t := by
  refine Option.ext fun s => ?_
  rw [synced?_eq_some_iff hw, synced?_eq_some_iff hw', hs]

/-- Only kinds that take part in snapshots have bytes: those of their codec. -/
theorem bytes?_eq_some_iff {d : List UInt8} : w.bytes? i t = some d ↔
    ∃ k, ∃ c : Codec (Value k), ∃ col, w.ofTag? t = some ⟨k, col, some c⟩ ∧
      ∃ v, col.get? i = some v ∧ c.encode v = d := by
  unfold bytes?
  rw [Option.bind_eq_some_iff]
  constructor
  · rintro ⟨⟨k, col, codec⟩, hr, hd⟩
    rw [Registration.encode?_eq] at hd
    cases codec with
    | none => cases hd
    | some c => exact ⟨k, c, col, hr, Option.map_eq_some_iff.mp hd⟩
  · rintro ⟨k, c, col, hr, v, hv, rfl⟩
    refine ⟨_, hr, ?_⟩
    rw [Registration.encode?_eq]
    exact congrArg (Option.map c.encode) hv

/-! ### A capture, slot by slot -/

/-- An entry with bytes that the codec of its kind wrote. -/
def Genuine (w : World κ) (x : SnapshotEntry) : Prop :=
  ∃ k, ∃ c : Codec (Value k), ∃ v, w.synced? x.tag = some ⟨k, c⟩ ∧
    c.decode x.data = .ok v ∧ c.encode v = x.data

theorem Genuine.congr {x : SnapshotEntry} (h : w.Genuine x)
    (hs : w'.synced? x.tag = w.synced? x.tag) : w'.Genuine x := by
  obtain ⟨k, c, v, hk, hcodec⟩ := h
  exact ⟨k, c, v, hs.trans hk, hcodec⟩

/-- A capture has genuine entries only, under codecs that read what they wrote. -/
theorem genuine_of_decode_encode (hw : w.WellFormed)
    (hlaw : ∀ s ∈ w.synced, ∀ v, s.2.decode (s.2.encode v) = .ok v)
    {x : SnapshotEntry} (hx : x ∈ w.capture.entries) : w.Genuine x := by
  obtain ⟨e, -, -, -, hb⟩ := (mem_captureWhere_iff hw.pool hw.tagsDistinct).mp hx
  obtain ⟨k, c, col, hr, v, -, hv⟩ := bytes?_eq_some_iff.mp hb
  have hs : w.synced? x.tag = some ⟨k, c⟩ := by
    rw [synced?_eq, hr]
    rfl
  have hc := hlaw _ ((synced?_eq_some_iff hw.tagsDistinct).mp hs).1
  exact ⟨k, c, v, hs, hv ▸ hc v, hv⟩

variable [DecidableEq κ]

/-! ### What replaying an entry does -/

/-- A world after a component was restored with some bytes: nothing else changed. -/
structure Restored (w : World κ) (x : SnapshotEntry) (bytes : List UInt8) (w' : World κ) :
    Prop where
  wellFormed : w'.WellFormed
  synced_eq : w'.synced = w.synced
  bytes?_eq : ∀ i t, w'.bytes? i t =
    if i = x.index.toNat ∧ t = x.tag then some bytes else w.bytes? i t
  live_iff : ∀ i, (w'.pool.slotAt i).live = true ↔
    i = x.index.toNat ∨ (w.pool.slotAt i).live = true

theorem synced_rework {k : κ} (f : Column (Value k) → Column (Value k)) :
    (w.rework k f).synced = w.synced := by
  unfold synced rework
  rw [List.filterMap_map]
  exact List.filterMap_congr fun r _ => Registration.synced?_modifyColumn

theorem bytes?_write_self {k : κ} {c : Codec (Value k)} (hs : w.synced? (tagOf k) = some ⟨k, c⟩)
    (e : Handle) (v : Value k) :
    (w.write k e (some v)).bytes? e.slot (tagOf k) = some (c.encode v) := by
  obtain ⟨⟨k', col, codec⟩, hr, hs⟩ := Option.bind_eq_some_iff.mp hs
  have heq : codec.map (fun c => (⟨k', c⟩ : (k : κ) × Codec (Value k))) = some ⟨k, c⟩ := hs
  cases codec with
  | none => cases heq
  | some c' =>
  cases Option.some.inj heq
  have hm : (Registration.mk k col (some c)).modifyColumn k (·.put e.slot (some v)) =
      ⟨k, col.put e.slot (some v), some c⟩ := by
    simp [Registration.modifyColumn]
  have hnew : (w.write k e (some v)).ofTag? (tagOf k) =
      some ⟨k, col.put e.slot (some v), some c⟩ := by
    change (w.rework k (·.put e.slot (some v))).ofTag? (tagOf k) = _
    rw [ofTag?_rework, hr, Option.map_some, hm]
  refine bytes?_eq_some_iff.mpr ⟨k, c, _, hnew, v, ?_, rfl⟩
  rw [Column.get?_put, if_pos rfl]

omit [DecidableEq κ] in
theorem live_settle (hw : w.pool.WellFormed) {j : UInt32} (hj : j ≠ SlotPool.limit) (i : Nat) :
    ((w.settle j).pool.slotAt i).live = true ↔ i = j.toNat ∨ (w.pool.slotAt i).live = true := by
  rw [slotAt_settle hw hj]
  by_cases hi : i = j.toNat
  · rw [if_pos hi]
    exact iff_of_true rfl (Or.inl hi)
  · rw [if_neg hi]
    exact (or_iff_right hi).symm

/-- An entry that can be replayed is restored, with the bytes that its value has. -/
theorem restored_restoreEntry (hw : w.WellFormed) {x : SnapshotEntry}
    (hi : x.index ≠ SlotPool.limit) {k : κ} {c : Codec (Value k)} {v : Value k}
    (hs : w.synced? x.tag = some ⟨k, c⟩) (hd : c.decode x.data = .ok v) :
    Restored w x (c.encode v) (after (restoreEntry x) w) := by
  have hp := hw.pool
  have heq := restoreEntry_eq hp hi hs hd
  have htag : tagOf k = x.tag := (isRegistered_of_synced? hs).2
  have hkeep := hw.restoreEntry ⟨k, c, v, hs, hi, hd⟩
  refine ⟨hkeep, ?_, fun i t => ?_, fun i => ?_⟩
  · rw [after_of_ok heq]
    have hwrite : ((w.settle x.index).write k (w.pool.current x.index) (some v)).synced =
        (w.settle x.index).synced := synced_rework _
    rw [hwrite, synced, registrations_settle]
    rfl
  · rw [after_of_ok heq]
    split
    · next hkey =>
      obtain ⟨rfl, rfl⟩ := hkey
      have hs' : (w.settle x.index).synced? (tagOf k) = some ⟨k, c⟩ := by
        rw [htag, ← hs, synced?_eq, synced?_eq, ofTag?_settle]
      rw [← htag]
      exact bytes?_write_self hs' (w.pool.current x.index) v
    · next hkey =>
      rw [← htag] at hkey
      rw [bytes?_write (w.pool.current x.index) (some v) hkey, bytes?, bytes?, ofTag?_settle]
  · rw [after_of_ok heq]
    exact live_settle hp hi i

/-! ### What replaying a capture does -/

/-- Replaying entries that are all parts of one view `F` of the components makes
the view true where they are, and leaves everything else. -/
theorem replay_spec {F : Nat → TypeTag → Option (List UInt8)} {xs : List SnapshotEntry}
    (hw : w.WellFormed) (hx : ∀ x ∈ xs, w.Genuine x ∧ x.index ≠ SlotPool.limit)
    (hF : ∀ x ∈ xs, F x.index.toNat x.tag = some x.data) :
    (w.replay xs).WellFormed ∧ (w.replay xs).synced = w.synced ∧
    (∀ i t, (w.replay xs).bytes? i t =
      if ∃ x ∈ xs, x.index.toNat = i ∧ x.tag = t then F i t else w.bytes? i t) ∧
    ∀ i, ((w.replay xs).pool.slotAt i).live = true ↔
      (∃ x ∈ xs, x.index.toNat = i) ∨ (w.pool.slotAt i).live = true := by
  induction xs generalizing w with
  | nil => simpa [replay] using hw
  | cons x xs ih =>
    obtain ⟨⟨k, c, v, hs, hd, henc⟩, hi⟩ := hx x List.mem_cons_self
    have hr := restored_restoreEntry hw hi hs hd
    rw [henc] at hr
    have hrest : ∀ y ∈ xs, (after (restoreEntry x) w).Genuine y ∧ y.index ≠ SlotPool.limit := by
      intro y hy
      obtain ⟨hgenuine, hi⟩ := hx y (List.mem_cons_of_mem x hy)
      have hsynced := synced?_congr (t := y.tag) hw.tagsDistinct hr.wellFormed.tagsDistinct
        hr.synced_eq
      exact ⟨hgenuine.congr hsynced, hi⟩
    obtain ⟨hwf, hsync, hbytes, hlive⟩ :=
      ih hr.wellFormed hrest fun y hy => hF y (List.mem_cons_of_mem x hy)
    have hreplay : w.replay (x :: xs) = (after (restoreEntry x) w).replay xs := rfl
    rw [hreplay]
    refine ⟨hwf, hsync.trans hr.synced_eq, fun i t => ?_, fun i => ?_⟩
    · rw [hbytes, hr.bytes?_eq]
      -- an entry further on that is about the same component has the last word
      by_cases hlater : ∃ y ∈ xs, y.index.toNat = i ∧ y.tag = t
      · obtain ⟨y, hy, hkey⟩ := hlater
        rw [if_pos ⟨y, hy, hkey⟩, if_pos ⟨y, List.mem_cons_of_mem x hy, hkey⟩]
      · rw [if_neg hlater]
        by_cases hnow : x.index.toNat = i ∧ x.tag = t
        · have hfirst := hF x List.mem_cons_self
          rw [hnow.1, hnow.2] at hfirst
          rw [if_pos ⟨hnow.1.symm, hnow.2.symm⟩, if_pos ⟨x, List.mem_cons_self, hnow⟩, hfirst]
        · rw [if_neg fun h => hnow ⟨h.1.symm, h.2.symm⟩, if_neg]
          rintro ⟨y, hy, hkey⟩
          rcases List.mem_cons.mp hy with rfl | hy
          · exact hnow hkey
          · exact hlater ⟨y, hy, hkey⟩
    · rw [hlive, hr.live_iff, List.exists_mem_cons_iff, or_assoc, or_left_comm]
      exact or_congr eq_comm Iff.rfl

/-! ### The mirror -/

/-- A snapshot of genuine entries is restored if there is room for it. -/
theorem restore_of_genuine (hp : w.pool.WellFormed) {s : Snapshot}
    (h : ∀ x ∈ s.entries, w.Genuine x ∧ w.mayClaim x.index) :
    restore s w = .ok () (w.replay s.entries) := by
  have hcheck : w.check s.entries = .ok () := by
    refine check_eq_ok_iff.mpr fun x hx => checkEntry_eq_ok_iff.mpr ?_
    obtain ⟨⟨k, c, v, hs, hd, -⟩, hm⟩ := h x hx
    exact ⟨k, c, v, hs, hm, hd⟩
  exact restore_of_check hp hcheck

end World

/-- The operation registers a kind. -/
def Operation.Registers : Operation κ → Prop
  | .register _ | .registerSynced _ _ => True
  | _ => False

namespace World

variable [DecidableEq κ] {A B : World κ}

end World
end EntityWorld
