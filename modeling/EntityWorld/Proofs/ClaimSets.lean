/-
# What some claims come to

Vacant slots can be claimed one after another in any order, each of the claims is
granted, and the pool that they leave can be written down from the one before and
from the set of the slots (`SlotPool.populate`): the slots as far as the last one
claimed, the queue with all slots that were opened, less those that were claimed,
and one more live for each.

A claim past the end puts slots into the queue that a later claim takes out again,
so that along the way the pool does depend on the order. That it does not in the
end is `SlotPool.Claimed`, which here is read off as a pool.

Key definitions: `SlotPool.reach`, `SlotPool.populate`, `SlotPool.Served`.
Key theorems: `SlotPool.WellFormed.exists_mapM_claim`, `SlotPool.Claimed.eq_populate`,
`SlotPool.Served.mapM_claim`.
-/
import EntityWorld.Proofs.HighWater
import EntityWorld.Proofs.Ticking
import Mathlib.Tactic

namespace EntityWorld.SlotPool

variable {p q : SlotPool} {i : UInt32} {is js : List UInt32}

/-! ### The pool with some more slots live -/

/-- The number of slots once all of some are open. -/
def reach (p : SlotPool) (is : List UInt32) : Nat :=
  max p.slots.size (highest (is.map fun i => i.toNat + 1))

theorem reach_le_iff {n : Nat} : p.reach is ≤ n ↔ p.slots.size ≤ n ∧ ∀ i ∈ is, i.toNat < n := by
  unfold reach
  rw [max_le_iff, highest_le_iff, List.forall_mem_map]
  rfl

/-- The pool with some more slots live, all at one time. Old slots keep their generations
and new ones have their first. -/
def populate (p : SlotPool) (is : List UInt32) : SlotPool where
  reuse := p.reuse
  slots := Array.ofFn fun j : Fin (p.reach is) =>
    { generation := if j < p.slots.size then (p.slotAt j).generation else 0
      live := (p.slotAt j).live || is.contains (UInt32.ofNat j) }
  free := ((p.free.toList ++ opened p.slots.size (p.reach is)).filter fun j => !is.contains j).toArray
  liveCount := p.liveCount + is.length

/-- The slots of a list, by their places. -/
def Places (is : List UInt32) (j : Nat) : Prop := ∃ i ∈ is, i.toNat = j

theorem places_toNat_iff : Places is i.toNat ↔ i ∈ is := by
  constructor
  · rintro ⟨i', hi', heq⟩
    exact UInt32.toNat_inj.mp heq ▸ hi'
  · exact fun hi => ⟨i, hi, rfl⟩

theorem forall_places_iff {P : Nat → Prop} : (∀ j, Places is j → P j) ↔ ∀ i ∈ is, P i.toNat :=
  ⟨fun h i hi => h _ ⟨i, hi, rfl⟩, by rintro h _ ⟨i, hi, rfl⟩; exact h i hi⟩

theorem places_cons_iff {j : Nat} : Places (i :: is) j ↔ j = i.toNat ∨ Places is j := by
  unfold Places
  rw [List.exists_mem_cons_iff, eq_comm]

/-- Claimed slots that were vacant make up the pool. -/
theorem Claimed.eq_populate (h : Claimed p (Places is) q) (hp : p.WellFormed) (hq : q.WellFormed)
    (hcount : q.liveCount = p.liveCount + is.length) : q = p.populate is := by
  have hsize : q.slots.size = p.reach is := by
    have hle : ∀ n, q.slots.size ≤ n ↔ p.reach is ≤ n := fun n => by
      rw [h.size_le_iff, reach_le_iff, forall_places_iff (P := (· < n))]
    exact le_antisymm ((hle _).mpr (le_refl _)) ((hle _).mp (le_refl _))
  have hslot : ∀ j < q.slots.size, q.slotAt j =
      { generation := if j < p.slots.size then (p.slotAt j).generation else 0
        live := (p.slotAt j).live || is.contains (UInt32.ofNat j) } := by
    intro j hj
    have hback : (UInt32.ofNat j).toNat = j := hq.toNat_ofNat hj.le
    have hplace : Places is j ↔ UInt32.ofNat j ∈ is := by
      rw [← places_toNat_iff, hback]
    have hlive : (q.slotAt j).live = ((p.slotAt j).live || is.contains (UInt32.ofNat j)) := by
      rw [Bool.eq_iff_iff, h.live_iff, Bool.or_eq_true, List.contains_iff_mem, hplace]
    have hgeneration : (q.slotAt j).generation =
        if j < p.slots.size then (p.slotAt j).generation else 0 := by
      rw [h.generation_eq]
      split
      · rfl
      · next hnew => rw [slotAt_of_size_le (Nat.le_of_not_lt hnew)]
    rw [← hlive, ← hgeneration]
  have hslots : q.slots = (p.populate is).slots := by
    refine Array.ext (by simp [populate, hsize]) fun j hj _ => ?_
    have hget : q.slots[j] = q.slotAt j := by simp [slotAt, hj]
    rw [hget, hslot j hj]
    simp [populate]
  have hfree : q.free = (p.populate is).free := by
    rw [← Array.toList_inj, h.free_eq, hsize]
    refine List.filter_congr fun j hj => ?_
    -- nobody lived in any of these slots before
    have hbefore : (p.slotAt j.toNat).live = false := by
      rcases List.mem_append.mp hj with hold | hnew
      · exact ((hp.mem_free j).mp hold).2
      · have hlimit := hsize ▸ hq.size_le
        exact congrArg Slot.live (slotAt_of_size_le ((mem_opened (by omega)).mp hnew).1)
    have hlive : (q.slotAt j.toNat).live = is.contains j := by
      rw [Bool.eq_iff_iff, h.live_iff, hbefore, places_toNat_iff, List.contains_iff_mem]
      simp
    rw [hlive]
  cases q
  cases hslots
  cases hfree
  cases hcount
  cases h.reuse_eq
  rfl

/-! ### One claim after another -/

theorem liveCount_of_claim {e : Handle} (h : claim i p = .ok e q) :
    q.liveCount = p.liveCount + 1 := by
  unfold claim at h
  split at h
  · cases h
  · split at h
    · split at h
      · cases h
      · cases h
        rfl
    · cases h
      rfl

/-- A vacant slot is claimed in its current generation. -/
theorem WellFormed.exists_claim_current (hp : p.WellFormed) (hi : i ≠ limit)
    (hv : (p.slotAt i.toNat).live = false) : ∃ q, claim i p = .ok (p.current i) q := by
  obtain ⟨e, q, h⟩ := exists_claim hi hv
  obtain ⟨_, -, rfl, -⟩ := offers_of_claim hp h
  exact ⟨q, h⟩

/-- Claims of vacant slots are all granted, in any order. -/
theorem WellFormed.exists_mapM_claim (hp : p.WellFormed) (hnodup : is.Nodup)
    (hvacant : ∀ i ∈ is, i ≠ limit ∧ (p.slotAt i.toNat).live = false) :
    ∃ q, is.mapM claim p = .ok (is.map p.current) q ∧ q.WellFormed ∧ Claimed p (Places is) q ∧
      q.liveCount = p.liveCount + is.length := by
  induction is generalizing p with
  | nil =>
    refine ⟨p, rfl, hp, .of_live hp ?_, rfl⟩
    rintro j ⟨i, hi, -⟩
    cases hi
  | cons i is ih =>
    obtain ⟨hi, hv⟩ := hvacant i List.mem_cons_self
    obtain ⟨r, hfirst⟩ := hp.exists_claim_current hi hv
    have hr := wellFormed_of_claim hp hfirst
    have hclaimed := claimed_of_claim hp hfirst
    have hothers : ∀ j ∈ is, j ≠ limit ∧ (r.slotAt j.toNat).live = false := by
      intro j hj
      obtain ⟨hne, hfree⟩ := hvacant j (List.mem_cons_of_mem i hj)
      refine ⟨hne, Bool.eq_false_iff.mpr fun hlive => ?_⟩
      rcases (hclaimed.live_iff _).mp hlive with hold | heq
      · rw [hfree] at hold
        cases hold
      · exact (List.nodup_cons.mp hnodup).1 (UInt32.toNat_inj.mp heq ▸ hj)
    obtain ⟨q, hrest, hq, hall, hcount⟩ := ih hr hnodup.of_cons hothers
    have hcurrent : r.current = p.current := funext fun j =>
      congrArg (Handle.mk j) (hclaimed.generation_eq j.toNat)
    refine ⟨q, ?_, hq, (hclaimed.trans hall).congr fun j => places_cons_iff.symm, ?_⟩
    · rw [List.mapM_cons, bind_of_ok hfirst, bind_of_ok hrest, hcurrent]
      rfl
    · rw [hcount, liveCount_of_claim hfirst, List.length_cons]
      omega

/-! ### Any order -/

/-- The pools that requests lead to from one without slots. -/
def Served (p : SlotPool) : Prop := ∃ o rs, p = serve { reuse := o } rs

theorem Served.wellFormed (hp : p.Served) : p.WellFormed := by
  obtain ⟨o, rs, rfl⟩ := hp
  exact (wellFormed_empty o).serve rs

/-- **Claims commute.** Whatever was asked of a pool before, vacant slots can be claimed in
any order. Each claim is granted and gives the slot in its current generation, and
there is one pool that all orders end in, which is `populate`. -/
theorem Served.mapM_claim (hp : p.Served) (hnodup : is.Nodup)
    (hvacant : ∀ i ∈ is, i ≠ limit ∧ (p.slotAt i.toNat).live = false) (hjs : js.Perm is) :
    js.mapM claim p = .ok (js.map p.current) (p.populate is) ∧
      (p.populate is).next.toNat = p.reach is := by
  have hmem : ∀ i, i ∈ js ↔ i ∈ is := fun i => hjs.mem_iff
  obtain ⟨q, hrun, hq, hclaimed, hcount⟩ := hp.wellFormed.exists_mapM_claim
    (hjs.nodup_iff.mpr hnodup) fun i hi => hvacant i ((hmem i).mp hi)
  have hplaces : ∀ j, Places js j ↔ Places is j := fun j =>
    exists_congr fun i => and_congr_left fun _ => hmem i
  have hpool : q = p.populate is :=
    (hclaimed.congr hplaces).eq_populate hp.wellFormed hq (hjs.length_eq ▸ hcount)
  subst hpool
  refine ⟨hrun, ?_⟩
  rw [hq.toNat_next]
  exact Array.size_ofFn

/-- A pool with slots that were skipped and one that was left. -/
def skippedSlots : SlotPool := serve { reuse := .oldestFirst } [.claim 3, .spawn, .kill ⟨3, 0⟩]

theorem mapM_claim_skippedSlots :
    skippedSlots.free = #[1, 2, 3] ∧ ([5, 2, 3] : List UInt32).Nodup ∧
      (∀ i ∈ ([5, 2, 3] : List UInt32), i ≠ limit ∧ (skippedSlots.slotAt i.toNat).live = false) ∧
      [3, 5, 2].mapM claim skippedSlots =
        .ok [⟨3, 1⟩, ⟨5, 0⟩, ⟨2, 0⟩] (skippedSlots.populate [5, 2, 3]) ∧
      (skippedSlots.populate [5, 2, 3]).free = #[1, 4] ∧
      (skippedSlots.populate [5, 2, 3]).next.toNat = 6 := by
  have hnodup : ([5, 2, 3] : List UInt32).Nodup := by decide
  have hvacant : ∀ i ∈ ([5, 2, 3] : List UInt32),
      i ≠ limit ∧ (skippedSlots.slotAt i.toNat).live = false := by
    rw [List.forall_mem_cons, List.forall_mem_cons, List.forall_mem_singleton]
    decide +kernel
  have hperm : ([3, 5, 2] : List UInt32).Perm [5, 2, 3] := by decide
  have hrun := Served.mapM_claim ⟨_, _, rfl⟩ hnodup hvacant hperm
  have hgiven : [3, 5, 2].map skippedSlots.current = [⟨3, 1⟩, ⟨5, 0⟩, ⟨2, 0⟩] := by decide +kernel
  exact ⟨by decide +kernel, hnodup, hvacant, hgiven ▸ hrun.1, by decide +kernel, hrun.2⟩

end EntityWorld.SlotPool
