/-
# How many slots there are

Slots are opened and never closed, so that their number is a high-water mark. It
is the largest number that the run has ever had a reason for: the number of
entities alive at some moment, or one past a slot that was claimed
(`World.next_run`). Nothing is opened in vain: a spawn opens a slot only while
everybody else is alive, and a claim no slot past the one asked for.

A claim that goes past the end stays below the limit that the settings give, and
so does a snapshot, whatever it lists; beyond the limit there are only as many
slots as there were entities alive at once.

All bounds are stated for every number at once (`size_le_iff` and its like), as
this is what composes along a run.

Key definitions: `Operation.chooses`, `Operation.claims`, `World.liveCounts`,
`World.claims`.
Key theorems: `Outcome.size_le_iff`, `World.size_run_le_iff`, `World.next_run`.
-/
import EntityWorld.Proofs.Chronicle
import EntityWorld.Proofs.Reuse
import Mathlib.Tactic

namespace EntityWorld

theorem issued_map_begun (es : List Handle) : issued (es.map .begun) = es := by
  unfold issued
  rw [List.filterMap_map]
  exact List.filterMap_some

namespace SlotPool

variable {p q : SlotPool} {e : Handle}

theorem WellFormed.liveCount_le (hp : p.WellFormed) : p.liveCount ≤ p.slots.size :=
  hp.liveCount_add_size_free ▸ Nat.le_add_right _ _

/-- There are as many slots after a spawn as before, unless everybody is alive. -/
theorem size_le_iff_of_spawn (hp : p.WellFormed) (h : spawn p = .ok e q) (n : Nat) :
    q.slots.size ≤ n ↔ p.slots.size ≤ n ∧ q.liveCount ≤ n := by
  have hcount := (wellFormed_of_spawn hp h).liveCount_le
  obtain ⟨-, hlive, hslot⟩ := spawn_cases hp h
  rcases hslot with ⟨-, hsize⟩ | ⟨hempty, -, hsize, -⟩
  · omega
  · have hall := hp.liveCount_add_size_free
    rw [hempty, Array.size_empty] at hall
    omega

/-- A spawn succeeds if there is one more slot than there are entities. -/
theorem exists_spawn (hp : p.WellFormed) (h : p.liveCount < limit.toNat) :
    ∃ e q, spawn p = .ok e q := by
  cases hs : spawn p with
  | ok e q => exact ⟨e, q, rfl⟩
  | error cause q =>
    obtain ⟨-, -, hempty, hfull⟩ := full_of_spawn_error hp hs
    have hall := hp.liveCount_add_size_free
    rw [hempty, Array.size_empty] at hall
    omega

/-- And fails if there is none. -/
theorem spawn_of_full (hp : p.WellFormed) (h : p.liveCount = limit.toNat) :
    spawn p = .error .exhausted p := by
  cases hs : spawn p with
  | ok e q =>
    have hcount := (wellFormed_of_spawn hp hs).liveCount_le.trans (wellFormed_of_spawn hp hs).size_le
    have hnext := (spawn_cases hp hs).2.1
    omega
  | error cause q =>
    obtain ⟨rfl, rfl, -, -⟩ := full_of_spawn_error hp hs
    rfl

end SlotPool

variable {κ : Type} [Family κ] [DecidableEq κ]

/-! ### Operations that choose their slots -/

/-- Whether the slots that an operation takes are of the caller's choice. -/
def Operation.chooses : Operation κ → Bool
  | claim _ | restore _ => true
  | _ => false

/-- The slots that an operation claims: that of a claim, and those of a restored
snapshot which nobody lived in. -/
def Operation.claims (op : Operation κ) (w : World κ) : List UInt32 :=
  if op.chooses then (issued (op.events w)).map (·.index) else []

namespace World

variable {w w' : World κ} {op : Operation κ} {xs : List SnapshotEntry} {e : Handle}

/-- A replay opens no slot past those it claims. -/
theorem size_replay_le_iff (hw : w.pool.WellFormed) (hr : ∀ x ∈ xs, w.Replayable x) (n : Nat) :
    (w.replay xs).pool.slots.size ≤ n ↔
      w.pool.slots.size ≤ n ∧ ∀ e ∈ w.newcomers xs, e.slot < n := by
  refine replay_induction
    (motive := fun es u => u.pool.slots.size ≤ n ↔ w.pool.slots.size ≤ n ∧ ∀ e ∈ es, e.slot < n)
    hw hr [] ?_ (fun {es u e pool} hu he _ => ?_) fun _ hu _ _ => hu
  · simp
  · change pool.slots.size ≤ n ↔ _
    rw [he.size_eq, max_le_iff, hu, Nat.succ_le_iff, and_assoc, List.forall_mem_append,
      List.forall_mem_singleton]

/-- Who comes by a replay comes to the slot of an entry. -/
theorem exists_entry_of_newcomer (hw : w.pool.WellFormed) (hr : ∀ x ∈ xs, w.Replayable x)
    (he : e ∈ w.newcomers xs) : ∃ x ∈ xs, x.index = e.index := by
  induction xs generalizing w with
  | nil => cases he
  | cons x xs ih =>
    have hx := hr x List.mem_cons_self
    rcases List.mem_append.mp he with hfirst | hlater
    · split at hfirst
      · cases hfirst
      · next hv =>
        obtain ⟨_, _, _, -, hi, -⟩ := hx
        rw [given_of_ok (occupy_current hw hi hv), List.mem_singleton] at hfirst
        exact ⟨x, List.mem_cons_self, hfirst ▸ rfl⟩
    · obtain ⟨-, hp, -⟩ := hx.step hw
      obtain ⟨y, hy, hye⟩ := ih hp (replayable_of_cons hw hr) hlater
      exact ⟨y, List.mem_cons_of_mem _ hy, hye⟩

end World

namespace Outcome

variable {w w' : World κ} {op : Operation κ} {ys : List Event}

/-- What chooses its slots opens none past them. -/
theorem size_le_iff_of_chooses (h : Outcome w op ys w') (hw : w.pool.WellFormed)
    (hop : op.chooses) (n : Nat) :
    w'.pool.slots.size ≤ n ↔ w.pool.slots.size ≤ n ∧ ∀ e ∈ issued ys, e.slot < n := by
  cases h with
  | refused => simp [issued]
  | claim _ hc =>
    have hsize := (SlotPool.enters_of_claim hw hc).1.size_eq
    change _ ↔ _ ∧ ∀ e' ∈ [_], _
    rw [List.forall_mem_singleton, ← Nat.succ_le_iff, ← max_le_iff, ← hsize]
    rfl
  | restore hr =>
    rw [issued_map_begun]
    exact World.size_replay_le_iff hw hr n
  | _ => cases hop

/-- No operation opens a slot without need. -/
theorem size_le_iff (h : Outcome w op ys w') (hw : w.pool.WellFormed) (hw' : w'.pool.WellFormed)
    (n : Nat) : w'.pool.slots.size ≤ n ↔ w.pool.slots.size ≤ n ∧ w'.pool.liveCount ≤ n ∧
      (op.chooses → ∀ e ∈ issued ys, e.slot < n) := by
  have hcount := hw'.liveCount_le
  by_cases hop : op.chooses
  · rw [h.size_le_iff_of_chooses hw hop, imp_iff_right hop]
    refine ⟨fun ⟨hsize, hes⟩ => ⟨hsize, ?_, hes⟩, fun ⟨hsize, _, hes⟩ => ⟨hsize, hes⟩⟩
    exact hcount.trans ((h.size_le_iff_of_chooses hw hop n).mpr ⟨hsize, hes⟩)
  · rw [iff_true_intro fun hc => absurd hc hop, and_true]
    have hsame : w'.pool.slots.size = w.pool.slots.size →
        (w'.pool.slots.size ≤ n ↔ w.pool.slots.size ≤ n ∧ w'.pool.liveCount ≤ n) := by
      intro hsize
      omega
    cases h with
    | spawn hs => exact SlotPool.size_le_iff_of_spawn hw hs n
    | kill hk => exact hsame (SlotPool.leaves_of_kill hk).size_eq
    | claim | restore => exact absurd rfl hop
    | _ => exact hsame rfl

end Outcome

/-- No operation changes the settings. -/
theorem Change.settings_eq {op : Operation κ} {w w' : World κ} (h : Change op w w') :
    w'.settings = w.settings := by
  cases h with
  | _ => rfl

namespace World

variable {w : World κ}

theorem settings_apply (hw : w.pool.WellFormed) (op : Operation κ) :
    (op.apply w).settings = w.settings :=
  Change.keeps_row (I := fun u => u.settings = w.settings) (fun hc hu => hc.settings_eq.trans hu)
    (Change.row_apply op hw) rfl

theorem settings_run (hw : w.WellFormed) (ops : List (Operation κ)) :
    (w.run ops).settings = w.settings := by
  induction ops generalizing w with
  | nil => rfl
  | cons op ops ih => exact (ih (hw.apply op)).trans (settings_apply hw.pool op)

/-! ### One operation -/

/-- No operation opens a slot without need. -/
theorem size_apply_le_iff (hw : w.pool.WellFormed) (op : Operation κ) (n : Nat) :
    (op.apply w).pool.slots.size ≤ n ↔ w.pool.slots.size ≤ n ∧ (op.apply w).pool.liveCount ≤ n ∧
      ∀ i ∈ op.claims w, i.toNat < n := by
  have hw' : (op.apply w).pool.WellFormed :=
    Change.keeps_row (fun hc hu => hc.pool_wellFormed hu) (Change.row_apply op hw) hw
  rw [(op.outcome_apply hw).size_le_iff hw hw']
  unfold Operation.claims
  split
  · next hop => rw [List.forall_mem_map, imp_iff_right hop]; rfl
  · next hop => simp [hop]

/-- What is claimed is below the end, or below the limit. -/
theorem lt_of_mem_claims (hw : w.pool.WellFormed) {op : Operation κ} {i : UInt32}
    (hi : i ∈ op.claims w) : i.toNat < max w.pool.slots.size w.settings.slotLimit.toNat := by
  have hbound : ∀ j, w.mayClaim j → j.toNat < max w.pool.slots.size w.settings.slotLimit.toNat := by
    intro j hj
    rw [lt_max_iff, ← hw.toNat_next, ← UInt32.lt_iff_toNat_lt, ← UInt32.lt_iff_toNat_lt]
    exact (mayClaim_iff.mp hj).2
  unfold Operation.claims at hi
  split at hi
  · next hop =>
    obtain ⟨e, he, rfl⟩ := List.mem_map.mp hi
    cases op with
    | claim j =>
      have ho := (Operation.claim j).outcome_apply hw
      generalize (Operation.claim j).events w = ys at ho he
      generalize (Operation.claim j).apply w = w' at ho
      cases ho with
      | refused => cases he
      | claim hm hc =>
        rw [List.mem_singleton.mp he, (SlotPool.enters_of_claim hw hc).2]
        exact hbound j hm
    | restore s =>
      simp only [Operation.events] at he
      split at he
      · next hc =>
        rw [issued_map_begun] at he
        obtain ⟨x, hx, hxe⟩ := exists_entry_of_newcomer hw (replayable_of_check hc) he
        obtain ⟨_, _, _, -, hm, -⟩ := checkEntry_eq_ok_iff.mp (check_eq_ok_iff.mp hc x hx)
        exact hbound _ (hxe ▸ hm)
      · cases he
    | _ => cases hop
  · cases hi

/-- Claims and snapshots do not open slots past the limit. -/
theorem size_apply_le (hw : w.pool.WellFormed) {op : Operation κ} (hop : op.chooses) :
    (op.apply w).pool.slots.size ≤ max w.pool.slots.size w.settings.slotLimit.toNat := by
  have ho := op.outcome_apply hw
  refine (ho.size_le_iff_of_chooses hw hop _).mpr ⟨le_max_left _ _, fun e he => ?_⟩
  have hclaims : e.index ∈ op.claims w := by
    rw [Operation.claims, if_pos hop]
    exact List.mem_map_of_mem he
  exact lt_of_mem_claims hw hclaims

/-! ### Runs -/

/-- How many were alive at each moment of a run, the first and the last included. -/
def liveCounts : World κ → List (Operation κ) → List Nat
  | w, [] => [w.pool.liveCount]
  | w, op :: ops => w.pool.liveCount :: liveCounts (op.apply w) ops

/-- The slots that were claimed in a run. -/
def claims : World κ → List (Operation κ) → List UInt32
  | _, [] => []
  | w, op :: ops => op.claims w ++ claims (op.apply w) ops

theorem liveCount_mem_liveCounts (ops : List (Operation κ)) :
    w.pool.liveCount ∈ w.liveCounts ops := by
  cases ops with
  | nil => exact List.mem_cons_self
  | cons op ops => exact List.mem_cons_self

/-- A run opens no slot without need. -/
theorem size_run_le_iff (hw : w.WellFormed) (ops : List (Operation κ)) (n : Nat) :
    (w.run ops).pool.slots.size ≤ n ↔ w.pool.slots.size ≤ n ∧
      (∀ c ∈ w.liveCounts ops, c ≤ n) ∧ ∀ i ∈ w.claims ops, i.toNat < n := by
  induction ops generalizing w with
  | nil =>
    simp only [run_nil, liveCounts, claims, List.forall_mem_singleton, List.not_mem_nil,
      false_implies, implies_true, and_true]
    exact (and_iff_left_of_imp hw.pool.liveCount_le.trans).symm
  | cons op ops ih =>
    rw [run_cons, ih (hw.apply op), size_apply_le_iff hw.pool op, liveCounts, claims, List.forall_mem_cons,
      List.forall_mem_append]
    constructor
    · rintro ⟨⟨hsize, -, hclaims⟩, hcounts, hlater⟩
      exact ⟨hsize, ⟨hw.pool.liveCount_le.trans hsize, hcounts⟩, hclaims, hlater⟩
    · rintro ⟨hsize, ⟨-, hcounts⟩, hclaims, hlater⟩
      exact ⟨⟨hsize, hcounts _ (liveCount_mem_liveCounts ops), hclaims⟩, hcounts, hlater⟩

/-- Past the limit there are no more slots than were alive at once. -/
theorem size_run_le (hw : w.WellFormed) (ops : List (Operation κ)) {n : Nat}
    (hsize : w.pool.slots.size ≤ n) (hlimit : w.settings.slotLimit.toNat ≤ n)
    (hcounts : ∀ c ∈ w.liveCounts ops, c ≤ n) : (w.run ops).pool.slots.size ≤ n := by
  induction ops generalizing w with
  | nil => exact hsize
  | cons op ops ih =>
    have hlater := (List.forall_mem_cons.mp hcounts).2
    have hclaims : ∀ i ∈ op.claims w, i.toNat < n := fun i hi =>
      (lt_of_mem_claims hw.pool hi).trans_le (max_le hsize hlimit)
    refine ih (hw.apply op) ?_ ((settings_apply hw.pool op).symm ▸ hlimit) hlater
    exact (size_apply_le_iff hw.pool op n).mpr
      ⟨hsize, hlater _ (liveCount_mem_liveCounts ops), hclaims⟩

/-- **The slots are bounded by the high-water mark and by the limit.** After a run from
the start the number of slots is the largest of the numbers of entities alive at
one time and of those one past a claimed slot. No claim and no snapshot goes past
the limit and the slots there were; so there are no more slots than that or than
entities were alive at once, and no column is longer. -/
theorem next_run {s : Settings} (hs : ofSettings? s = some w) (ops : List (Operation κ)) :
    (w.run ops).pool.next.toNat =
      highest (w.liveCounts ops ++ (w.claims ops).map fun i => i.toNat + 1) ∧
    (∀ op : Operation κ, op.chooses → (op.apply (w.run ops)).pool.next.toNat ≤
      max (w.run ops).pool.next.toNat s.slotLimit.toNat) ∧
    (w.run ops).pool.next.toNat ≤ max s.slotLimit.toNat (highest (w.liveCounts ops)) ∧
    ∀ r ∈ (w.run ops).registrations, r.column.size ≤ (w.run ops).pool.next.toNat := by
  have hw := wellFormed_of_ofSettings? hs
  have hrun := hw.run ops
  have hempty : w.pool.slots.size = 0 := by rw [eq_of_ofSettings? hs]; rfl
  have hsettings : w.settings = s := by rw [eq_of_ofSettings? hs]
  have hsettingsRun : (w.run ops).settings = s := (settings_run hw ops).trans hsettings
  rw [hrun.pool.toNat_next]
  refine ⟨?_, fun op hop => ?_, ?_, hrun.size_le⟩
  · have hiff : ∀ n, (w.run ops).pool.slots.size ≤ n ↔
        highest (w.liveCounts ops ++ (w.claims ops).map fun i => i.toNat + 1) ≤ n := by
      intro n
      rw [size_run_le_iff hw, hempty, highest_le_iff, List.forall_mem_append, List.forall_mem_map]
      exact and_iff_right (Nat.zero_le n)
    exact le_antisymm ((hiff _).mpr (le_refl _)) ((hiff _).mp (le_refl _))
  · rw [(hrun.apply op).pool.toNat_next, ← hsettingsRun]
    exact size_apply_le hrun.pool hop
  · refine size_run_le hw ops (hempty ▸ Nat.zero_le _) ?_ fun c hc => ?_
    · exact hsettings ▸ le_max_left _ _
    · exact (le_highest hc).trans (le_max_right _ _)

/-- A world that opens no slot from the third on by request. -/
def twoSlotLimit : World (Stocked Empty) := { settings := { slotLimit := 2 } }

/-- Three come to be alive at once, in the slots 1, 0 and 2; two go, and a snapshot
gets the last slot back, which is past the limit but was open. -/
def crowding : List (Operation (Stocked Empty)) :=
  let tag := tagOf (Stocked.particle : Stocked Empty)
  [.registerSynced .particle Particle.codec, .claim 1, .spawn, .spawn, .kill ⟨1, 0⟩, .kill ⟨2, 0⟩,
    .restore ⟨[⟨2, tag, [0, 0, 0, 0, 0, 0, 0, 0]⟩]⟩, .claim 3]

/-- The mark stays where the third spawn put it. -/
theorem next_crowding :
    twoSlotLimit.liveCounts crowding = [0, 0, 1, 2, 3, 2, 1, 2, 2] ∧
    twoSlotLimit.claims crowding = [1, 2] ∧
    (twoSlotLimit.run crowding).pool.next.toNat = 3 ∧
    (∀ op : Operation (Stocked Empty), op.chooses →
      (op.apply (twoSlotLimit.run crowding)).pool.next.toNat ≤ 3) ∧
    ∀ r ∈ (twoSlotLimit.run crowding).registrations, r.column.size ≤ 3 := by
  have hcounts : twoSlotLimit.liveCounts crowding = [0, 0, 1, 2, 3, 2, 1, 2, 2] := by decide +kernel
  have hclaims : twoSlotLimit.claims crowding = [1, 2] := by decide +kernel
  obtain ⟨hnext, hlimit, -, hcolumns⟩ :=
    next_run (s := { slotLimit := 2 }) (w := twoSlotLimit) rfl crowding
  have hthree : (twoSlotLimit.run crowding).pool.next.toNat = 3 := by
    rw [hnext, hcounts, hclaims]
    rfl
  rw [hthree] at hlimit hcolumns
  exact ⟨hcounts, hclaims, hthree, hlimit, hcolumns⟩

end World
end EntityWorld
