/-
# Claims in any order

Which slots were claimed decides what becomes of a pool, and not the order in
which they were claimed. The queue is no exception: it is what it was, followed
by the slots that were opened in ascending order, less those that came to life
(`SlotPool.Claimed`). A claim past the end puts the slots in between into the
queue and a later claim may take one out again; either way they stand there in
the order of their places.

Claims in a row compose (`Claimed.trans`), and two pools that come from one by
claims of the same slots are equal (`Claimed.unique`).

Key definitions: `SlotPool.opened`, `SlotPool.Claimed`.
Key theorems: `SlotPool.claimed_of_claim`, `SlotPool.Claimed.trans`,
`SlotPool.Claimed.unique`.
-/
import EntityWorld.Proofs.Partition
import Mathlib.Tactic

namespace EntityWorld.SlotPool

variable {p q r : SlotPool} {i : UInt32} {S T : Nat → Prop}

/-! ### Slots that are opened -/

/-- The slots from one place up to another. -/
def opened (m n : Nat) : List UInt32 := (List.range' m (n - m)).map UInt32.ofNat

theorem opened_append {l m n : Nat} (hlm : l ≤ m) (hmn : m ≤ n) :
    opened l m ++ opened m n = opened l n := by
  unfold opened
  rw [← List.map_append]
  congr 1
  have hstep : List.range' l (m - l) ++ List.range' m (n - m) =
      List.range' l ((m - l) + (n - m)) := by
    have hm : m = l + (m - l) := by omega
    nth_rewrite 2 [hm]
    exact List.range'_append_1
  rw [hstep]
  congr 1
  omega

theorem mem_opened {m n : Nat} (hn : n ≤ limit.toNat + 1) {j : UInt32} :
    j ∈ opened m n ↔ m ≤ j.toNat ∧ j.toNat < n := by
  have hlim : limit.toNat = 4294967295 := rfl
  simp only [opened, List.mem_map, List.mem_range'_1]
  constructor
  · rintro ⟨a, ha, rfl⟩
    have hback : (UInt32.ofNat a).toNat = a := by
      rw [UInt32.toNat_ofNat']
      exact Nat.mod_eq_of_lt (by omega)
    omega
  · intro hj
    exact ⟨j.toNat, by omega, UInt32.ofNat_toNat⟩

/-! ### Claimed slots -/

/-- `q` is `p` after the slots of `S` were claimed, those of them that were vacant. -/
structure Claimed (p : SlotPool) (S : Nat → Prop) (q : SlotPool) : Prop where
  reuse_eq : q.reuse = p.reuse
  live_iff : ∀ j, (q.slotAt j).live = true ↔ (p.slotAt j).live = true ∨ S j
  generation_eq : ∀ j, (q.slotAt j).generation = (p.slotAt j).generation
  /-- The pool is as long as it was, or as long as the last of the slots needs. -/
  size_le_iff : ∀ n, q.slots.size ≤ n ↔ p.slots.size ≤ n ∧ ∀ j, S j → j < n
  free_eq : q.free.toList = (p.free.toList ++ opened p.slots.size q.slots.size).filter
    fun j => !(q.slotAt j.toNat).live

namespace Claimed

theorem size_le (h : Claimed p S q) : p.slots.size ≤ q.slots.size :=
  ((h.size_le_iff _).mp (le_refl _)).1

/-- Slots that are live need not be claimed. -/
theorem of_live (hp : p.WellFormed) (hS : ∀ j, S j → (p.slotAt j).live = true) : Claimed p S p where
  reuse_eq := rfl
  live_iff j := (or_iff_left_of_imp (hS j)).symm
  generation_eq _ := rfl
  size_le_iff n := by
    refine (and_iff_left_of_imp fun hn j hj => ?_).symm
    exact lt_of_lt_of_le (lt_size_of_live (hS j hj)) hn
  free_eq := by
    have hnone : opened p.slots.size p.slots.size = [] := by simp [opened]
    rw [hnone, List.append_nil, eq_comm, List.filter_eq_self]
    intro j hj
    simpa using ((hp.mem_free j).mp hj).2

/-- Claims in a row. -/
theorem trans (h : Claimed p S q) (h' : Claimed q T r) : Claimed p (fun j => S j ∨ T j) r where
  reuse_eq := h'.reuse_eq.trans h.reuse_eq
  live_iff j := by rw [h'.live_iff, h.live_iff, or_assoc]
  generation_eq j := (h'.generation_eq j).trans (h.generation_eq j)
  size_le_iff n := by
    rw [h'.size_le_iff, h.size_le_iff, and_assoc]
    refine and_congr_right fun _ => ?_
    simp only [or_imp, forall_and]
  free_eq := by
    -- who is vacant at the end was vacant before, so the later sieve is enough
    have hsieve : ∀ l : List UInt32, (l.filter fun j => !(q.slotAt j.toNat).live).filter
        (fun j => !(r.slotAt j.toNat).live) = l.filter fun j => !(r.slotAt j.toNat).live := by
      intro l
      rw [List.filter_filter]
      refine List.filter_congr fun j _ => ?_
      cases hq : (q.slotAt j.toNat).live with
      | false => simp
      | true =>
        have hr : (r.slotAt j.toNat).live = true := (h'.live_iff _).mpr (Or.inl hq)
        simp [hr]
    rw [h'.free_eq, h.free_eq, List.filter_append, hsieve, ← List.filter_append,
      List.append_assoc, opened_append h.size_le h'.size_le]

/-- It does not matter how the slots are told of. -/
theorem congr (h : Claimed p S q) (hST : ∀ j, S j ↔ T j) : Claimed p T q := by
  have hfun : S = T := funext fun j => propext (hST j)
  exact hfun ▸ h

/-- The claimed slots decide the pool. -/
theorem unique (h : Claimed p S q) (h' : Claimed p S r) (hq : q.WellFormed) (hr : r.WellFormed) :
    q = r := by
  have hsize : q.slots.size = r.slots.size := by
    have hle : ∀ n, q.slots.size ≤ n ↔ r.slots.size ≤ n := fun n =>
      (h.size_le_iff n).trans (h'.size_le_iff n).symm
    exact le_antisymm ((hle _).mpr (le_refl _)) ((hle _).mp (le_refl _))
  have hslot : q.slotAt = r.slotAt := by
    funext j
    have hlive : (q.slotAt j).live = (r.slotAt j).live :=
      Bool.eq_iff_iff.mpr ((h.live_iff j).trans (h'.live_iff j).symm)
    have hgeneration := (h.generation_eq j).trans (h'.generation_eq j).symm
    cases hs : q.slotAt j
    cases hs' : r.slotAt j
    rw [hs, hs'] at hlive hgeneration
    cases hlive
    cases hgeneration
    rfl
  have hslots : q.slots = r.slots := by
    rw [← Array.toList_inj, toList_slots, toList_slots, hsize, hslot]
  have hfree : q.free = r.free := by
    rw [← Array.toList_inj, h.free_eq, h'.free_eq, hsize, hslot]
  have hcount : q.liveCount = r.liveCount := by
    rw [hq.liveCount_eq, hr.liveCount_eq, hslots]
  have hreuse : q.reuse = r.reuse := h.reuse_eq.trans h'.reuse_eq.symm
  cases q
  cases r
  cases hreuse
  cases hslots
  cases hfree
  cases hcount
  rfl

end Claimed

/-! ### One claim -/

/-- A claim takes its slot out of the queue, whether it stood there or was opened. -/
theorem eq_of_claim {e : Handle} (hp : p.WellFormed) (h : claim i p = .ok e q) :
    q.reuse = p.reuse ∧ q.slots.size = max p.slots.size (i.toNat + 1) ∧
      q.free.toList = (p.free.toList ++ opened p.slots.size q.slots.size).filter (· != i) := by
  unfold claim at h
  split at h
  · cases h
  · next hi =>
    cases hs : p.slots[i.toNat]? with
    | some s =>
      -- the slot is open already
      obtain ⟨hlt, -⟩ := Array.getElem?_eq_some_iff.mp hs
      rw [hs] at h
      dsimp only at h
      split at h
      · cases h
      · cases h
        have hnone : opened p.slots.size p.slots.size = [] := by simp [opened]
        refine ⟨rfl, ?_, ?_⟩
        · rw [size_occupy, max_eq_left (Nat.succ_le_of_lt hlt)]
        · rw [size_occupy, hnone, List.append_nil]
          exact Array.toList_filter
    | none =>
      -- the slot is opened, and with it all in between
      have hle : p.slots.size ≤ i.toNat := Array.getElem?_eq_none_iff.mp hs
      rw [hs] at h
      have hq : q = (occupy (p.openUpTo i) i).2 := (EStateM.Result.ok.inj h).2.symm
      have hsize : q.slots.size = i.toNat + 1 := by rw [hq, size_occupy, WellFormed.size_openUpTo hle]
      have hfree : (p.openUpTo i).free.toList = p.free.toList ++ opened p.slots.size i.toNat := by
        simp [openUpTo, opened]
      have hlast : opened i.toNat (i.toNat + 1) = [i] := by simp [opened]
      have hold : ∀ j ∈ p.free.toList ++ opened p.slots.size i.toNat, (j != i) = true := by
        intro j hj
        have hlt := i.toNat_lt
        have hlim : limit.toNat = 4294967295 := rfl
        rw [List.mem_append, hp.mem_free, mem_opened (by omega)] at hj
        rw [bne_iff_ne]
        rintro rfl
        omega
      refine ⟨by rw [hq]; rfl, by omega, ?_⟩
      rw [hsize, ← opened_append hle (Nat.le_succ _), hlast, ← List.append_assoc,
        List.filter_append, List.filter_eq_self.mpr hold, hq]
      simpa [occupy] using hfree

theorem claimed_of_claim {e : Handle} (hp : p.WellFormed) (h : claim i p = .ok e q) :
    Claimed p (· = i.toNat) q := by
  obtain ⟨hreuse, hsize, hfree⟩ := eq_of_claim hp h
  obtain ⟨henters, hindex⟩ := enters_of_claim hp h
  have hslot : ∀ j, q.slotAt j =
      if j = i.toNat then { p.slotAt j with live := true } else p.slotAt j := by
    intro j
    rw [henters.slotAt_eq j, Handle.slot, hindex]
  refine ⟨hreuse, fun j => ?_, fun j => ?_, fun n => ?_, ?_⟩
  · rw [hslot]
    by_cases hj : j = i.toNat
    · simp [hj]
    · simp [hj]
  · rw [hslot]
    split <;> rfl
  · rw [hsize]
    simp only [forall_eq]
    omega
  · rw [hfree]
    refine List.filter_congr fun j hj => ?_
    rw [hslot]
    by_cases hji : j = i
    · simp [hji]
    · have hne : j.toNat ≠ i.toNat := fun hn => hji (UInt32.toNat_inj.mp hn)
      have hvacant : (p.slotAt j.toNat).live = false := by
        rcases List.mem_append.mp hj with hold | hnew
        · exact ((hp.mem_free j).mp hold).2
        · have hlimit := (wellFormed_of_claim hp h).size_le
          exact congrArg Slot.live (slotAt_of_size_le ((mem_opened (by omega)).mp hnew).1)
      simp [hji, hne, hvacant]

end EntityWorld.SlotPool
