/-
# Going back to a capture

Whatever happens to a world, its kinds keep their codecs and its slots stay open
(`World.Extends`). This is all that the entries of a capture ask for: the codecs
that wrote them are there to read them, and a slot that was open may be claimed,
also one past the limit of the settings, where spawning led. So a world can go
back to any capture that was made of it before, whoever has come, gone or taken
another's place since.

Key definitions: `World.Extends`.
Key theorems: `Change.extends`, `World.WellFormed.extends_run`,
`World.Reachable.restore_capture_run`.
-/
import EntityWorld.Proofs.Mirror
import Mathlib.Tactic

namespace EntityWorld

variable {κ : Type} [Family κ]

/-! ### What only grows -/

namespace World

/-- The kinds keep their codecs, and the slots stay open. -/
structure Extends (w w' : World κ) : Prop where
  synced? : ∀ t s, w.synced? t = some s → w'.synced? t = some s
  size_le : w.pool.slots.size ≤ w'.pool.slots.size

namespace Extends

variable {w w' w'' : World κ}

theorem refl (w : World κ) : w.Extends w := ⟨fun _ _ h => h, le_refl _⟩

theorem trans (h : w.Extends w') (h' : w'.Extends w'') : w.Extends w'' :=
  ⟨fun t s hs => h'.synced? t s (h.synced? t s hs), le_trans h.size_le h'.size_le⟩

/-- A slot that was open may be claimed. -/
theorem mayClaim (h : w.Extends w') (hw' : w'.pool.WellFormed) {i : UInt32}
    (hi : i.toNat < w.pool.slots.size) : w'.mayClaim i := by
  have hlt : i.toNat < w'.pool.slots.size := lt_of_lt_of_le hi h.size_le
  have hne : i ≠ SlotPool.limit := by
    rintro rfl
    exact absurd hw'.size_le (Nat.not_le_of_lt hlt)
  have hnext : i < w'.pool.next := by
    rw [UInt32.lt_iff_toNat_lt, hw'.toNat_next]
    exact hlt
  exact mayClaim_iff.mpr ⟨hne, Or.inl hnext⟩

theorem genuine (h : w.Extends w') {x : SnapshotEntry} (hx : w.Genuine x) : w'.Genuine x := by
  obtain ⟨k, c, v, hs, hd, henc⟩ := hx
  exact ⟨k, c, v, h.synced? _ _ hs, hd, henc⟩

end Extends
end World

variable [DecidableEq κ]

/-- Each change takes neither a codec away nor a slot. -/
theorem Change.extends {op : Operation κ} {w w' : World κ} (h : Change op w w') :
    w.Extends w' := by
  have hrework : ∀ k (f : Column (Value k) → Column (Value k)), w.Extends (w.rework k f) :=
    fun k f => ⟨fun t s hs => World.synced?_rework.trans hs, le_refl _⟩
  cases h with
  | enter he hp => exact ⟨fun _ _ hs => hs, he.size_le⟩
  | leave he hp =>
    refine ⟨fun t s hs => ?_, he.size_eq.ge⟩
    rw [World.synced?_eq, World.ofTag?_leave, Option.bind_map]
    exact hs
  | write o hk he => exact ⟨(hrework _ _).synced?, le_refl _⟩
  | discard hk he => exact ⟨(hrework _ _).synced?, le_refl _⟩
  | edit f hk hg => exact hrework _ _
  | editAt i f => exact hrework _ _
  | editAll f => exact hrework _ _
  | enroll codec ht =>
    refine ⟨fun t s hs => ?_, le_refl _⟩
    obtain ⟨r, hr, hs⟩ := Option.bind_eq_some_iff.mp hs
    rw [World.synced?_eq, World.ofTag?_enroll_of_some codec hr]
    exact hs
  | offer codec =>
    refine ⟨fun t s hs => ?_, le_refl _⟩
    rw [World.synced?_eq, World.ofTag?_offer_of_isSome _ fun _ _ => Option.isSome_of_eq_some hs]
    exact hs
  | stamp | relabel | setVersion | prune | forget => exact ⟨fun _ _ hs => hs, le_refl _⟩

namespace World

variable {w : World κ}

theorem WellFormed.extends_apply (hw : w.WellFormed) (op : Operation κ) : w.Extends (op.apply w) :=
  Change.keeps_row (I := fun u => w.Extends u) (fun hc hu => hu.trans hc.extends)
    (Change.row_apply op hw.pool) (.refl w)

/-- A run takes neither a codec away nor a slot. -/
theorem WellFormed.extends_run (hw : w.WellFormed) (ops : List (Operation κ)) :
    w.Extends (w.run ops) := by
  induction ops generalizing w with
  | nil => exact .refl w
  | cons op ops ih => exact (hw.extends_apply op).trans (ih (hw.apply op))

/-! ### Going back -/

/-- **A world can always go back to a capture.** If the codecs read what they wrote,
the capture of a reachable world restores in whatever world operations make of
it; then the slots of its entries are live and the components have its bytes. -/
theorem Reachable.restore_capture_run (h : w.Reachable)
    (hlaw : ∀ s ∈ w.synced, ∀ v, s.2.decode (s.2.encode v) = .ok v) (ops : List (Operation κ)) :
    ∃ w', restore w.capture (w.run ops) = .ok () w' ∧
      ∀ x ∈ w.capture.entries, w'.isAlive (w'.pool.current x.index) ∧
        w'.payload? (w'.pool.current x.index) x.tag = some x.data := by
  have hw := h.wellFormed
  have hrun := hw.run ops
  have hext := hw.extends_run ops
  have hview : ∀ x ∈ w.capture.entries, w.bytes? x.index.toNat x.tag = some x.data ∧
      x.index.toNat < w.pool.slots.size := by
    intro x hx
    obtain ⟨e, he, hi, -, hb⟩ := (mem_captureWhere_iff hw.pool hw.tagsDistinct).mp hx
    rw [← hi]
    exact ⟨hb, WellFormed.lt_size_of_isAlive he⟩
  have hentries : ∀ x ∈ w.capture.entries,
      (w.run ops).Genuine x ∧ (w.run ops).mayClaim x.index := by
    intro x hx
    have hgenuine := hext.genuine (genuine_of_decode_encode hw hlaw hx)
    exact ⟨hgenuine, hext.mayClaim hrun.pool (hview x hx).2⟩
  obtain ⟨-, -, hbytes, hlive⟩ := replay_spec hrun
    (fun x hx => ⟨(hentries x hx).1, (mayClaim_iff.mp (hentries x hx).2).1⟩)
    fun x hx => (hview x hx).1
  refine ⟨_, restore_of_genuine hrun.pool hentries, fun x hx => ?_⟩
  have halive := SlotPool.isAlive_current.mpr ((hlive x.index.toNat).mpr (Or.inl ⟨x, hx, rfl⟩))
  refine ⟨halive, ?_⟩
  rw [payload?_of_isAlive halive]
  exact (hbytes _ _).trans ((if_pos ⟨x, hx, rfl, rfl⟩).trans (hview x hx).1)

/-- A world whose settings let no slot be asked for, with a particle all the same. -/
def zeroLimit : World (Stocked Empty) :=
  run { settings := { slotLimit := 0 } }
    [.registerSynced .particle Particle.codec, .spawn, .add .particle ⟨0, 0⟩ { lifetime := 1 }]

/-- The particle is gone and its slot taken, and it can be brought back. -/
theorem restore_capture_zeroLimit :
    ∃ w', restore zeroLimit.capture (zeroLimit.run [.kill ⟨0, 0⟩, .spawn]) = .ok () w' ∧
      w'.payload? (w'.pool.current 0) (tagOf (Stocked.particle : Stocked Empty)) =
        some (Particle.codec.encode { lifetime := 1 }) := by
  have hw : zeroLimit.Reachable :=
    ReachableBy.run (.start (s := { slotLimit := 0 }) rfl) ⟨trivial, trivial, trivial, trivial⟩
  have hsynced : zeroLimit.synced = [⟨.particle, Particle.codec⟩] := rfl
  have hlaw : ∀ s ∈ zeroLimit.synced, ∀ v, s.2.decode (s.2.encode v) = .ok v := by
    rw [hsynced]
    intro s hs
    rw [List.mem_singleton.mp hs]
    exact Codec.lawful_stock.2.2.1.decode_encode
  obtain ⟨w', hrestore, hentries⟩ := hw.restore_capture_run hlaw [.kill ⟨0, 0⟩, .spawn]
  have hentry : ⟨0, tagOf (Stocked.particle : Stocked Empty),
      Particle.codec.encode { lifetime := 1 }⟩ ∈ zeroLimit.capture.entries := by
    decide +kernel
  exact ⟨w', hrestore, (hentries _ hentry).2⟩

end World
end EntityWorld
