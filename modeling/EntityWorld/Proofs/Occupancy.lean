/-
# Who lives where

The pool seen slot by slot: `slotAt` gives what a slot holds, and a slot that
was never opened is like one nobody has lived in yet. Through this view an
entity that comes to life, by `spawn` or by `claim`, changes one slot from
vacant to live (`Enters`), and one that ends changes one slot from live to
vacant in its next generation (`Leaves`); no other slot changes.

A well-formed pool keeps its queue in step with its slots: a slot waits in it
exactly if it is open and vacant, and it waits there once. Taking a slot out of
the queue, opening one, and opening all up to one are alike in what they leave
(`Offers`), which is why `spawn` and `claim` are treated as one.

Key definitions: `SlotPool.slotAt`, `SlotPool.Enters`, `SlotPool.Leaves`,
`SlotPool.WellFormed`.
Key theorems: `SlotPool.enters_of_spawn`, `SlotPool.enters_of_claim`,
`SlotPool.leaves_of_kill`, each with its `wellFormed_of_...`.
-/
import EntityWorld.SlotPool
import Mathlib.Tactic

namespace EntityWorld

theorem Handle.eq_of_slot_eq {e e' : Handle} (hs : e.slot = e'.slot)
    (hg : e.generation = e'.generation) : e = e' := by
  have hi : e.index = e'.index := UInt32.toNat_inj.mp hs
  cases e; cases e'
  simp_all

namespace SlotPool

variable {p q r : SlotPool} {e : Handle} {i : UInt32}

/-! ### Slots -/

/-- What a slot holds. -/
def slotAt (p : SlotPool) (i : Nat) : Slot := p.slots[i]?.getD {}

theorem slotAt_of_size_le {j : Nat} (h : p.slots.size ≤ j) : p.slotAt j = {} := by
  simp [slotAt, Array.getElem?_eq_none h]

theorem lt_size_of_live {j : Nat} (h : (p.slotAt j).live = true) : j < p.slots.size := by
  by_contra hj
  rw [slotAt_of_size_le (by omega)] at h
  exact absurd h (by decide)

theorem isAlive_iff_slotAt :
    p.isAlive e ↔ (p.slotAt e.slot).live = true ∧ (p.slotAt e.slot).generation = e.generation := by
  rw [isAlive_iff, slotAt]
  cases p.slots[e.slot]? with
  | none => simp
  | some s => simp

theorem isAlive_current : p.isAlive (p.current i) ↔ (p.slotAt i.toNat).live = true := by
  rw [isAlive_iff_slotAt]
  exact and_iff_left rfl

/-- A live slot has one occupant. -/
theorem eq_of_isAlive {e' : Handle} (h : p.isAlive e) (h' : p.isAlive e') (hs : e.slot = e'.slot) :
    e = e' := by
  refine Handle.eq_of_slot_eq hs ?_
  rw [← (isAlive_iff_slotAt.mp h).2, hs, (isAlive_iff_slotAt.mp h').2]

theorem eq_current_of_isAlive (h : p.isAlive e) : e = p.current e.index :=
  eq_of_isAlive h (isAlive_current.mpr (isAlive_iff_slotAt.mp h).1) rfl

/-! ### Coming and going -/

/-- `e` comes to live in a slot that was vacant. -/
structure Enters (p : SlotPool) (e : Handle) (q : SlotPool) : Prop where
  vacant : (p.slotAt e.slot).live = false
  generation : (p.slotAt e.slot).generation = e.generation
  slotAt_eq : ∀ j, q.slotAt j = if j = e.slot then { p.slotAt j with live := true } else p.slotAt j
  size_eq : q.slots.size = max p.slots.size (e.slot + 1)

/-- `e` leaves its slot to the next generation. -/
structure Leaves (p : SlotPool) (e : Handle) (q : SlotPool) : Prop where
  alive : p.isAlive e
  slotAt_eq : ∀ j, q.slotAt j =
    if j = e.slot then { generation := e.generation + 1, live := false } else p.slotAt j
  size_eq : q.slots.size = p.slots.size

theorem Enters.size_le (h : Enters p e q) : p.slots.size ≤ q.slots.size :=
  h.size_eq ▸ le_max_left p.slots.size (e.slot + 1)

theorem Enters.not_isAlive (h : Enters p e q) {e' : Handle} (hs : e'.slot = e.slot) :
    ¬ p.isAlive e' := by
  rw [isAlive_iff_slotAt, hs, h.vacant]
  simp

/-- Who lives after `e` came: those before, and `e`. -/
theorem Enters.isAlive_iff (h : Enters p e q) {e' : Handle} :
    q.isAlive e' ↔ e' = e ∨ p.isAlive e' := by
  rw [isAlive_iff_slotAt, isAlive_iff_slotAt, h.slotAt_eq]
  by_cases hs : e'.slot = e.slot
  · rw [if_pos hs, hs, h.generation, h.vacant]
    simp only [true_and, Bool.false_eq_true, false_and, or_false]
    exact ⟨fun hg => Handle.eq_of_slot_eq hs hg.symm, fun he => he ▸ rfl⟩
  · rw [if_neg hs]
    exact ⟨Or.inr, fun h => h.resolve_left fun he => hs (he ▸ rfl)⟩

/-- Who lives after `e` left: those before but `e`. -/
theorem Leaves.isAlive_iff (h : Leaves p e q) {e' : Handle} :
    q.isAlive e' ↔ e' ≠ e ∧ p.isAlive e' := by
  rw [isAlive_iff_slotAt, h.slotAt_eq]
  by_cases hs : e'.slot = e.slot
  · rw [if_pos hs]
    simp only [Bool.false_eq_true, false_and, false_iff, not_and]
    exact fun hne h' => hne (eq_of_isAlive h' h.alive hs)
  · rw [if_neg hs, isAlive_iff_slotAt]
    exact ⟨fun h' => ⟨fun he => hs (he ▸ rfl), h'⟩, fun h' => h'.2⟩

/-! ### The queue and the slots -/

/-- The queue is in step with the slots, and so is the number of live ones. -/
structure WellFormed (p : SlotPool) : Prop where
  size_le : p.slots.size ≤ limit.toNat
  free_nodup : p.free.toList.Nodup
  mem_free : ∀ i : UInt32,
    i ∈ p.free.toList ↔ i.toNat < p.slots.size ∧ (p.slotAt i.toNat).live = false
  liveCount_eq : p.liveCount = p.slots.toList.countP (·.live)

theorem wellFormed_empty (o : ReuseOrder) : WellFormed { reuse := o } where
  size_le := Nat.zero_le _
  free_nodup := List.nodup_nil
  mem_free i := by simp
  liveCount_eq := rfl

/-- `r` is `p` with the slot `i` open, vacant and out of the queue. -/
structure Offers (p : SlotPool) (i : UInt32) (r : SlotPool) : Prop where
  slotAt_eq : ∀ j, r.slotAt j = p.slotAt j
  vacant : (p.slotAt i.toNat).live = false
  size_eq : r.slots.size = max p.slots.size (i.toNat + 1)
  size_le_limit : r.slots.size ≤ limit.toNat
  free_nodup : r.free.toList.Nodup
  mem_free : ∀ j : UInt32, j ∈ r.free.toList ↔
    j ≠ i ∧ j.toNat < r.slots.size ∧ (r.slotAt j.toNat).live = false
  liveCount_eq : r.liveCount = r.slots.toList.countP (·.live)

theorem slotAt_occupy (h : i.toNat < p.slots.size) (j : Nat) :
    (occupy p i).2.slotAt j =
      if j = i.toNat then { p.slotAt j with live := true } else p.slotAt j := by
  simp only [slotAt, occupy, Array.getElem?_modify]
  by_cases hj : j = i.toNat
  · subst hj
    simp [Array.getElem?_eq_getElem h]
  · simp [hj, Ne.symm hj]

theorem size_occupy : (occupy p i).2.slots.size = p.slots.size := by simp [occupy]

/-- Changing one slot changes the number of live ones by what it was and is. -/
theorem countP_modify (h : i.toNat < p.slots.size) (f : Slot → Slot) :
    (p.slots.modify i.toNat f).toList.countP (·.live) =
      p.slots.toList.countP (·.live) - (if (p.slotAt i.toNat).live then 1 else 0) +
        (if (f (p.slotAt i.toNat)).live then 1 else 0) := by
  have hl : i.toNat < p.slots.toList.length := by simpa using h
  have hs : p.slotAt i.toNat = p.slots.toList[i.toNat] := by
    simp [slotAt, Array.getElem?_eq_getElem h]
  rw [Array.toList_modify, List.modify_eq_set, List.countP_set hl, ← hs]
  have hg : p.slots.toList[i.toNat]?.getD default = p.slotAt i.toNat := by
    rw [hs, List.getElem?_eq_getElem hl, Option.getD_some]
  rw [hg]

namespace Offers

theorem lt_size (h : Offers p i r) : i.toNat < r.slots.size :=
  h.size_eq ▸ le_max_right p.slots.size (i.toNat + 1)

theorem enters (h : Offers p i r) : Enters p (p.current i) (occupy r i).2 where
  vacant := h.vacant
  generation := rfl
  slotAt_eq j := by
    rw [slotAt_occupy h.lt_size, h.slotAt_eq]
    rfl
  size_eq := size_occupy.trans h.size_eq

theorem fst_occupy (h : Offers p i r) : (occupy r i).1 = p.current i := by
  have hg := congrArg Slot.generation (h.slotAt_eq i.toNat)
  simpa [occupy, current, slotAt] using hg

theorem wellFormed (h : Offers p i r) : (occupy r i).2.WellFormed where
  size_le := by
    rw [size_occupy]
    exact h.size_le_limit
  free_nodup := h.free_nodup
  mem_free j := by
    have hj : j.toNat = i.toNat ↔ j = i := UInt32.toNat_inj
    rw [size_occupy, slotAt_occupy h.lt_size]
    change j ∈ r.free.toList ↔ _
    rw [h.mem_free]
    by_cases hji : j = i
    · simp [hji]
    · simp [hji, hj]
  liveCount_eq := by
    have hv : (r.slotAt i.toNat).live = false := by
      rw [h.slotAt_eq]
      exact h.vacant
    have hc := countP_modify h.lt_size fun s => { s with live := true }
    simp only [hv, Bool.false_eq_true, ↓reduceIte, Nat.sub_zero] at hc
    change r.liveCount + 1 = (r.slots.modify i.toNat _).toList.countP _
    rw [hc, h.liveCount_eq]

end Offers

/-! ### Three ways to a vacant slot -/

/-- The slot that is taken waits at one end of the queue. -/
theorem free_eq_of_takeFree {rest : Array UInt32} (h : p.takeFree = some (i, rest)) :
    p.free.toList = match p.reuse with
      | .newestFirst => rest.toList ++ [i]
      | .oldestFirst => i :: rest.toList := by
  unfold takeFree at h
  cases hr : p.reuse with
  | newestFirst =>
    simp only [hr, Option.map_eq_some_iff, Prod.mk.injEq] at h
    obtain ⟨j, hj, rfl, rfl⟩ := h
    obtain ⟨ys, hys⟩ := Array.back?_eq_some_iff.mp hj
    rw [hys, Array.pop_push, Array.toList_push]
  | oldestFirst =>
    simp only [hr, Option.map_eq_some_iff, Prod.mk.injEq] at h
    obtain ⟨j, hj, rfl, rfl⟩ := h
    obtain ⟨hl, hj⟩ := Array.getElem?_eq_some_iff.mp hj
    have hcons : p.free.toList = j :: p.free.toList.drop 1 := by
      rw [← hj, ← Array.getElem_toList, ← List.drop_eq_getElem_cons (by simpa using hl),
        List.drop_zero]
    have hrest : (p.free.extract 1).toList = p.free.toList.drop 1 := by simp
    rw [hrest]
    exact hcons

theorem perm_of_takeFree {rest : Array UInt32} (h : p.takeFree = some (i, rest)) :
    p.free.toList.Perm (i :: rest.toList) := by
  rw [free_eq_of_takeFree h]
  split
  · exact List.perm_append_singleton i rest.toList
  · exact .refl _

theorem takeFree_eq_none_iff : p.takeFree = none ↔ p.free = #[] := by
  unfold takeFree
  cases p.reuse with
  | newestFirst => simp
  | oldestFirst => simp

namespace WellFormed

/-- The number of slots is an index, and so is the place of each. -/
theorem toNat_ofNat (hp : p.WellFormed) {j : Nat} (hj : j ≤ p.slots.size) :
    (UInt32.ofNat j).toNat = j := by
  have hsize := hp.size_le
  have hlim : limit.toNat = 4294967295 := rfl
  have hbound : UInt32.size = 4294967296 := rfl
  exact UInt32.toNat_ofNat_of_lt' (by omega)

theorem toNat_next (hp : p.WellFormed) : p.next.toNat = p.slots.size := hp.toNat_ofNat (le_refl _)

/-- The slot that waits at the front is vacant and leaves the queue. -/
theorem offers_takeFree (hp : p.WellFormed) {rest : Array UInt32}
    (h : p.takeFree = some (i, rest)) : Offers p i { p with free := rest } := by
  have hperm := perm_of_takeFree h
  have hnd := hperm.nodup_iff.mp hp.free_nodup
  rw [List.nodup_cons] at hnd
  have hi := (hp.mem_free i).mp (hperm.mem_iff.mpr List.mem_cons_self)
  refine ⟨fun _ => rfl, hi.2, (max_eq_left hi.1).symm, hp.size_le, hnd.2, fun j => ?_,
    hp.liveCount_eq⟩
  have hj : j ∈ rest.toList ↔ j ≠ i ∧ j ∈ p.free.toList := by
    rw [hperm.mem_iff, List.mem_cons]
    refine ⟨fun hm => ⟨fun he => hnd.1 (he ▸ hm), Or.inr hm⟩, fun ⟨hne, hm⟩ => hm.resolve_left hne⟩
  exact hj.trans (and_congr_right fun _ => hp.mem_free j)

/-- The next slot is opened for a newcomer. -/
theorem offers_push (hp : p.WellFormed) (hroom : p.slots.size < limit.toNat) :
    Offers p p.next { p with slots := p.slots.push {} } := by
  have hnext := hp.toNat_next
  have hslot : ∀ j, slotAt { p with slots := p.slots.push {} } j = p.slotAt j := by
    intro j
    simp only [slotAt, Array.getElem?_push]
    split
    · next hj => simp [hj]
    · rfl
  have hvac : (p.slotAt p.next.toNat).live = false := by
    rw [slotAt_of_size_le (le_of_eq hnext.symm)]
  refine ⟨hslot, hvac, ?_, ?_, hp.free_nodup, fun j => ?_, ?_⟩
  · simp [hnext]
  · simpa using hroom
  · have hmem := hp.mem_free j
    have hj : j ≠ p.next ↔ j.toNat ≠ p.slots.size := by
      rw [← hnext, ne_eq, ne_eq, UInt32.toNat_inj]
    rw [hslot, Array.size_push]
    change j ∈ p.free.toList ↔ _
    rw [hmem, hj]
    exact ⟨fun h => ⟨by omega, by omega, h.2⟩, fun h => ⟨by omega, h.2.2⟩⟩
  · simp [hp.liveCount_eq]

/-- A vacant slot asked for leaves the queue, wherever in it it waits. -/
theorem offers_filter (hp : p.WellFormed) (hi : i.toNat < p.slots.size)
    (hv : (p.slotAt i.toNat).live = false) :
    Offers p i { p with free := p.free.filter (· != i) } := by
  refine ⟨fun _ => rfl, hv, (max_eq_left hi).symm, hp.size_le, ?_, fun j => ?_, hp.liveCount_eq⟩
  · rw [Array.toList_filter]
    exact hp.free_nodup.filter _
  · simp only [Array.toList_filter, List.mem_filter, bne_iff_ne, ne_eq]
    rw [hp.mem_free j]
    exact and_comm

theorem slotAt_openUpTo (p : SlotPool) (i : UInt32) (j : Nat) :
    (p.openUpTo i).slotAt j = p.slotAt j := by
  simp only [slotAt, openUpTo, Array.getElem?_append, Array.getElem?_replicate]
  split
  · rfl
  · next h => rw [Array.getElem?_eq_none (by omega)]; split <;> rfl

theorem size_openUpTo (hi : p.slots.size ≤ i.toNat) : (p.openUpTo i).slots.size = i.toNat + 1 := by
  simp only [openUpTo, Array.size_append, Array.size_replicate]
  omega

/-- The slots between the end and the one asked for. -/
theorem mem_skipped (j : UInt32) (hi : p.slots.size ≤ i.toNat) :
    j ∈ (List.range' p.slots.size (i.toNat - p.slots.size)).map UInt32.ofNat ↔
      p.slots.size ≤ j.toNat ∧ j.toNat < i.toNat := by
  have hlt := i.toNat_lt
  simp only [List.mem_map, List.mem_range'_1]
  constructor
  · rintro ⟨n, hn, rfl⟩
    have hofn : (UInt32.ofNat n).toNat = n := by
      simp only [UInt32.toNat_ofNat']
      exact Nat.mod_eq_of_lt (by omega)
    omega
  · intro hj
    exact ⟨j.toNat, by omega, by simp⟩

/-- Asking past the end opens the slots in between, which join the queue. -/
theorem offers_openUpTo (hp : p.WellFormed) (hi : p.slots.size ≤ i.toNat) (hne : i ≠ limit) :
    Offers p i (p.openUpTo i) := by
  have hlim : limit.toNat = 4294967295 := rfl
  have hlt := i.toNat_lt
  have hne' : i.toNat ≠ limit.toNat := fun h => hne (UInt32.toNat_inj.mp h)
  have hsize := size_openUpTo hi
  have hfree : (p.openUpTo i).free.toList =
      p.free.toList ++ (List.range' p.slots.size (i.toNat - p.slots.size)).map UInt32.ofNat := by
    simp [openUpTo]
  refine ⟨slotAt_openUpTo p i, by rw [slotAt_of_size_le hi], by omega, by omega, ?_, fun j => ?_,
    ?_⟩
  · rw [hfree, List.nodup_append]
    refine ⟨hp.free_nodup, ?_, fun a ha b hb hab => ?_⟩
    · refine List.Nodup.map_on (fun a ha b hb hab => ?_) List.nodup_range'
      rw [List.mem_range'_1] at ha hb
      have := congrArg UInt32.toNat hab
      simp only [UInt32.toNat_ofNat'] at this
      omega
    · have h1 := ((hp.mem_free a).mp ha).1
      have h2 := ((mem_skipped b hi).mp hb).1
      rw [hab] at h1
      omega
  · have hj : j = i ↔ j.toNat = i.toNat := UInt32.toNat_inj.symm
    rw [hfree, List.mem_append, hp.mem_free, mem_skipped j hi, hsize, slotAt_openUpTo, ne_eq, hj]
    by_cases hjs : j.toNat < p.slots.size
    · constructor
      · rintro (h | h)
        · exact ⟨by omega, by omega, h.2⟩
        · omega
      · exact fun h => Or.inl ⟨hjs, h.2.2⟩
    · rw [slotAt_of_size_le (by omega)]
      constructor
      · rintro (h | h)
        · omega
        · exact ⟨by omega, by omega, rfl⟩
      · exact fun h => Or.inr ⟨by omega, by omega⟩
  · have hslots : (p.openUpTo i).slots.toList =
        p.slots.toList ++ List.replicate (i.toNat + 1 - p.slots.size) ({} : Slot) := by
      simp [openUpTo]
    rw [hslots, List.countP_append, List.countP_replicate, ← hp.liveCount_eq]
    simp [openUpTo]

end WellFormed

/-! ### The operations -/

/-- `spawn` puts the newcomer into a slot that was on offer. -/
theorem offers_of_spawn (hp : p.WellFormed) (h : spawn p = .ok e q) :
    ∃ r, Offers p e.index r ∧ e = p.current e.index ∧ q = (occupy r e.index).2 := by
  simp only [spawn] at h
  split at h
  · next i rest htake =>
    cases h
    exact ⟨_, hp.offers_takeFree htake, rfl, rfl⟩
  · split at h
    · next hroom =>
      have ho := hp.offers_push hroom
      cases h
      exact ⟨_, ho, ho.fst_occupy, rfl⟩
    · cases h

/-- And so does `claim`, at the slot asked for. -/
theorem offers_of_claim (hp : p.WellFormed) (h : claim i p = .ok e q) :
    ∃ r, Offers p i r ∧ e = p.current i ∧ q = (occupy r i).2 := by
  simp only [claim] at h
  split at h
  · cases h
  · next hne =>
    split at h
    · next s hs =>
      split at h
      · cases h
      · next hlive =>
        obtain ⟨hl, -⟩ := Array.getElem?_eq_some_iff.mp hs
        have hv : (p.slotAt i.toNat).live = false := by simpa [slotAt, hs] using hlive
        cases h
        exact ⟨_, hp.offers_filter hl hv, rfl, rfl⟩
    · next hs =>
      have ho := hp.offers_openUpTo (Array.getElem?_eq_none_iff.mp hs) hne
      cases h
      exact ⟨_, ho, ho.fst_occupy, rfl⟩

theorem enters_of_spawn (hp : p.WellFormed) (h : spawn p = .ok e q) : Enters p e q := by
  obtain ⟨r, ho, he, rfl⟩ := offers_of_spawn hp h
  exact he ▸ ho.enters

theorem wellFormed_of_spawn (hp : p.WellFormed) (h : spawn p = .ok e q) : q.WellFormed := by
  obtain ⟨r, ho, -, rfl⟩ := offers_of_spawn hp h
  exact ho.wellFormed

theorem enters_of_claim (hp : p.WellFormed) (h : claim i p = .ok e q) :
    Enters p e q ∧ e.index = i := by
  obtain ⟨r, ho, rfl, rfl⟩ := offers_of_claim hp h
  exact ⟨ho.enters, rfl⟩

theorem wellFormed_of_claim (hp : p.WellFormed) (h : claim i p = .ok e q) : q.WellFormed := by
  obtain ⟨r, ho, -, rfl⟩ := offers_of_claim hp h
  exact ho.wellFormed

/-- A vacant slot can be claimed, but for the last index. -/
theorem exists_claim (hi : i ≠ limit) (hv : (p.slotAt i.toNat).live = false) :
    ∃ e q, claim i p = .ok e q := by
  simp only [claim, if_neg hi]
  cases hs : p.slots[i.toNat]? with
  | none => exact ⟨_, _, rfl⟩
  | some s =>
    have hlive : s.live = false := by simpa [slotAt, hs] using hv
    simp only [hlive, Bool.false_eq_true, ↓reduceIte]
    exact ⟨_, _, rfl⟩

theorem leaves_of_kill (h : kill e p = .ok () q) : Leaves p e q := by
  simp only [kill] at h
  split at h
  · next ha =>
    have hlt := lt_size_of_live (isAlive_iff_slotAt.mp ha).1
    have hg := (isAlive_iff_slotAt.mp ha).2
    simp only [EStateM.Result.ok.injEq, true_and] at h
    subst h
    refine ⟨ha, fun j => ?_, by simp⟩
    simp only [slotAt, Array.getElem?_modify] at hg ⊢
    by_cases hj : j = e.slot
    · subst hj
      rw [Array.getElem?_eq_getElem hlt] at hg ⊢
      simp_all
    · simp [hj, Ne.symm hj]
  · cases h

theorem wellFormed_of_kill (hp : p.WellFormed) (h : kill e p = .ok () q) : q.WellFormed := by
  have hl := leaves_of_kill h
  have hlive := (isAlive_iff_slotAt.mp hl.alive).1
  have hlt := lt_size_of_live hlive
  have hdead : e.index ∉ p.free.toList := fun hm => by
    have hv := ((hp.mem_free e.index).mp hm).2
    rw [show e.index.toNat = e.slot from rfl, hlive] at hv
    exact absurd hv (by decide)
  simp only [kill, if_pos hl.alive, EStateM.Result.ok.injEq, true_and] at h
  refine ⟨?_, ?_, fun j => ?_, ?_⟩
  · rw [hl.size_eq]
    exact hp.size_le
  · rw [← h, Array.toList_push]
    exact (List.perm_append_singleton _ _).nodup_iff.mpr
      (List.nodup_cons.mpr ⟨hdead, hp.free_nodup⟩)
  · have hj : j = e.index ↔ j.toNat = e.slot := UInt32.toNat_inj.symm
    have hfree : q.free.toList = p.free.toList ++ [e.index] := by rw [← h, Array.toList_push]
    rw [hfree, List.mem_append, List.mem_singleton, hp.mem_free, hl.slotAt_eq, hl.size_eq, hj]
    by_cases hjs : j.toNat = e.slot
    · simp [hjs, hlt]
    · simp [hjs]
  · have hc := countP_modify (i := e.index) hlt fun s =>
      { generation := s.generation + 1, live := false }
    rw [show e.index.toNat = e.slot from rfl, hlive] at hc
    rw [← h]
    simp only [Bool.false_eq_true, ↓reduceIte, Nat.add_zero] at hc
    rw [hc, hp.liveCount_eq]

end SlotPool
end EntityWorld
