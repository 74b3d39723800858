/-
# The slots are live or free

However often slots are taken, emptied and asked for, in whatever order and with
whatever handle, every open slot is either live or waits in the queue, and never
twice (`SlotPool.Partitioned`). The two counts that the pool gives, of live slots
and of free ones, add up to the number of slots, and the list of the living has
each of them once, slots ascending.

A slot keeps its generation and its life together, so that there is one number of
slots and not two that have to agree.

Key definitions: `SlotPool.Request`, `SlotPool.serve`, `SlotPool.occupant?`,
`SlotPool.Partitioned`.
Key theorems: `SlotPool.alive_eq`, `SlotPool.WellFormed.serve`,
`SlotPool.partitioned_serve`.
-/
import EntityWorld.Proofs.Occupancy
import EntityWorld.Proofs.Operations
import Mathlib.Tactic

namespace EntityWorld.SlotPool

variable {p q : SlotPool} {e : Handle}

/-! ### Requests -/

/-- What can be asked of a pool. -/
inductive Request where
  | spawn
  | kill (e : Handle)
  | claim (i : UInt32)
deriving DecidableEq

/-- The pool after a request, granted or not. -/
def Request.apply : Request → SlotPool → SlotPool
  | spawn, p => after SlotPool.spawn p
  | kill e, p => after (SlotPool.kill e) p
  | claim i, p => after (SlotPool.claim i) p

/-- The pool after some requests, one after another. -/
def serve (p : SlotPool) (rs : List Request) : SlotPool := rs.foldl (fun p r => r.apply p) p

/-! ### What is refused changes nothing -/

section Refused

variable {cause : HandleError}

theorem eq_of_spawn_error (h : spawn p = .error cause q) : q = p := by
  unfold spawn at h
  split at h
  · cases h
  · split at h
    · cases h
    · cases h
      rfl

theorem eq_of_claim_error {i : UInt32} (h : claim i p = .error cause q) : q = p := by
  unfold claim at h
  split at h
  · cases h
    rfl
  · split at h
    · split at h
      · cases h
        rfl
      · cases h
    · cases h

theorem eq_of_kill_error (h : kill e p = .error cause q) : q = p := by
  unfold kill at h
  split at h
  · cases h
  · cases h
    rfl

end Refused

namespace WellFormed

/-- What leaves a well-formed pool well-formed when it is granted leaves it so
anyway. -/
theorem after_of_granted {α : Type} {act : EStateM HandleError SlotPool α} (hp : p.WellFormed)
    (hok : ∀ a q, act p = .ok a q → q.WellFormed)
    (herror : ∀ c q, act p = .error c q → q = p) : (after act p).WellFormed := by
  cases h : act p with
  | ok a q =>
    rw [after_of_ok h]
    exact hok a q h
  | error c q =>
    rw [after_of_error h, herror c q h]
    exact hp

/-- A request leaves a well-formed pool well-formed. -/
theorem apply (hp : p.WellFormed) (r : Request) : (r.apply p).WellFormed := by
  cases r with
  | spawn =>
    exact hp.after_of_granted (fun _ _ h => wellFormed_of_spawn hp h) fun _ _ => eq_of_spawn_error
  | kill e =>
    exact hp.after_of_granted (fun _ _ h => wellFormed_of_kill hp h) fun _ _ => eq_of_kill_error
  | claim i =>
    exact hp.after_of_granted (fun _ _ h => wellFormed_of_claim hp h) fun _ _ => eq_of_claim_error

/-- And so does any number of them. -/
theorem serve (hp : p.WellFormed) (rs : List Request) : (p.serve rs).WellFormed := by
  induction rs generalizing p with
  | nil => exact hp
  | cons r rs ih => exact ih (hp.apply r)

end WellFormed

/-! ### The living, slot by slot -/

/-- Who lives in a slot. -/
def occupant? (p : SlotPool) (i : Nat) : Option Handle :=
  if (p.slotAt i).live then some (p.current (UInt32.ofNat i)) else none

theorem occupant?_eq_none {i : Nat} (h : p.slots.size ≤ i) : p.occupant? i = none := by
  unfold occupant?
  rw [slotAt_of_size_le h]
  rfl

/-- The live entities, read off slot by slot as far as there are slots, or farther. -/
theorem alive_eq (hp : p.WellFormed) {n : Nat} (hn : p.slots.size ≤ n) :
    p.alive = (List.range n).filterMap p.occupant? := by
  have hzip : p.slots.toList.zipIdx = (List.range p.slots.size).map fun i => (p.slotAt i, i) := by
    refine List.ext_getElem (by simp) fun i hi hi' => ?_
    have hlt : i < p.slots.size := by simpa using hi
    simp [slotAt, hlt]
  have hopen : p.alive = (List.range p.slots.size).filterMap p.occupant? := by
    unfold alive
    rw [hzip, List.filterMap_map]
    refine List.filterMap_congr fun i hi => ?_
    have hlt : i < p.slots.size := List.mem_range.mp hi
    have hi : (UInt32.ofNat i).toNat = i := hp.toNat_ofNat hlt.le
    simp only [Function.comp_apply, occupant?, current, slotAt, hi]
  obtain ⟨m, rfl⟩ := Nat.exists_eq_add_of_le hn
  have hrest : ((List.range m).map (p.slots.size + ·)).filterMap p.occupant? = [] := by
    refine List.filterMap_eq_nil_iff.mpr fun i hi => ?_
    obtain ⟨j, -, rfl⟩ := List.mem_map.mp hi
    exact occupant?_eq_none (Nat.le_add_right _ _)
  rw [hopen, List.range_add, List.filterMap_append, hrest, List.append_nil]

theorem occupant?_eq_some_iff (hp : p.WellFormed) {i : Nat} :
    p.occupant? i = some e ↔ p.isAlive e ∧ e.slot = i := by
  unfold occupant?
  constructor
  · intro h
    split at h
    · next hl =>
      cases h
      have hi : (UInt32.ofNat i).toNat = i := hp.toNat_ofNat (lt_size_of_live hl).le
      exact ⟨isAlive_current.mpr (hi.symm ▸ hl), hi⟩
    · cases h
  · rintro ⟨h, rfl⟩
    have hi : UInt32.ofNat e.slot = e.index := UInt32.ofNat_toNat
    rw [if_pos (isAlive_iff_slotAt.mp h).1, hi, ← eq_current_of_isAlive h]

theorem mem_alive_iff (hp : p.WellFormed) : e ∈ p.alive ↔ p.isAlive e := by
  rw [alive_eq hp (le_refl _), List.mem_filterMap]
  constructor
  · rintro ⟨i, -, hi⟩
    exact ((occupant?_eq_some_iff hp).mp hi).1
  · intro h
    have hlt := lt_size_of_live (isAlive_iff_slotAt.mp h).1
    exact ⟨e.slot, List.mem_range.mpr hlt, (occupant?_eq_some_iff hp).mpr ⟨h, rfl⟩⟩

/-! ### The partition -/

/-- The open slots are the live ones and the free ones, and the living live in the
former. -/
structure Partitioned (p : SlotPool) : Prop where
  next_eq : p.next.toNat = p.slots.size
  size_le : p.slots.size ≤ limit.toNat
  free_nodup : p.free.toList.Nodup
  mem_free_iff : ∀ i : UInt32,
    i ∈ p.free.toList ↔ i.toNat < p.slots.size ∧ (p.slotAt i.toNat).live = false
  liveCount_eq : p.liveCount = p.slots.toList.countP (·.live)
  liveCount_add_size_free : p.liveCount + p.free.size = p.slots.size
  /-- The count does not fall below zero when an entity goes. -/
  liveCount_pos : ∀ e, p.isAlive e → 0 < p.liveCount
  mem_alive_iff : ∀ e, e ∈ p.alive ↔ p.isAlive e
  alive_ascending : p.alive.Pairwise (·.index < ·.index)
  length_alive : p.alive.length = p.liveCount

theorem toList_slots (p : SlotPool) : p.slots.toList = (List.range p.slots.size).map p.slotAt := by
  refine List.ext_getElem (by simp) fun i hi hi' => ?_
  have hlt : i < p.slots.size := by simpa using hi
  simp [slotAt, hlt]

namespace WellFormed

/-- The queue lists the vacant slots, in the order in which they wait. -/
theorem perm_free (hp : p.WellFormed) : (p.free.toList.map UInt32.toNat).Perm
    ((List.range p.slots.size).filter fun i => !(p.slotAt i).live) := by
  have hnodup : (p.free.toList.map UInt32.toNat).Nodup :=
    hp.free_nodup.map fun i j h => UInt32.toNat_inj.mp h
  refine (List.perm_ext_iff_of_nodup hnodup (List.nodup_range.filter _)).mpr fun j => ?_
  simp only [List.mem_map, List.mem_filter, List.mem_range, Bool.not_eq_true']
  constructor
  · rintro ⟨i, hi, rfl⟩
    exact (hp.mem_free i).mp hi
  · intro hj
    have hback := hp.toNat_ofNat hj.1.le
    refine ⟨UInt32.ofNat j, (hp.mem_free _).mpr ?_, hback⟩
    rw [hback]
    exact hj

theorem liveCount_add_size_free (hp : p.WellFormed) :
    p.liveCount + p.free.size = p.slots.size := by
  have hfree : p.free.size = (List.range p.slots.size).countP fun i => !(p.slotAt i).live := by
    have hlength := hp.perm_free.length_eq
    rwa [List.length_map, Array.length_toList, ← List.countP_eq_length_filter] at hlength
  have hlive : p.liveCount = (List.range p.slots.size).countP fun i => (p.slotAt i).live := by
    rw [hp.liveCount_eq, toList_slots, List.countP_map]
    rfl
  have hall : p.slots.size = (List.range p.slots.size).countP (fun i => (p.slotAt i).live) +
      (List.range p.slots.size).countP fun i => !(p.slotAt i).live := by
    have hlength := List.length_eq_countP_add_countP (fun i => (p.slotAt i).live)
      (l := List.range p.slots.size)
    simpa using hlength
  omega

theorem liveCount_pos (hp : p.WellFormed) (h : p.isAlive e) : 0 < p.liveCount := by
  obtain ⟨s, hs, hlive, -⟩ := isAlive_iff.mp h
  rw [hp.liveCount_eq, List.countP_pos_iff]
  exact ⟨s, Array.mem_toList_iff.mpr (Array.mem_of_getElem? hs), hlive⟩

theorem alive_ascending (hp : p.WellFormed) : p.alive.Pairwise (·.index < ·.index) := by
  rw [alive_eq hp (le_refl _), List.pairwise_filterMap]
  refine List.pairwise_lt_range.imp fun {i j} hij e he e' he' => ?_
  have hi := ((occupant?_eq_some_iff hp).mp he).2
  have hj := ((occupant?_eq_some_iff hp).mp he').2
  rw [UInt32.lt_iff_toNat_lt]
  change e.slot < e'.slot
  omega

theorem length_alive (hp : p.WellFormed) : p.alive.length = p.liveCount := by
  have hsome : ∀ i, (p.occupant? i).isSome = (p.slotAt i).live := by
    intro i
    unfold occupant?
    split <;> simp_all
  rw [alive_eq hp (le_refl _), List.length_filterMap_eq_countP, hp.liveCount_eq, toList_slots,
    List.countP_map]
  exact List.countP_congr fun i _ => by rw [hsome]; rfl

theorem partitioned (hp : p.WellFormed) : p.Partitioned where
  next_eq := hp.toNat_next
  size_le := hp.size_le
  free_nodup := hp.free_nodup
  mem_free_iff := hp.mem_free
  liveCount_eq := hp.liveCount_eq
  liveCount_add_size_free := hp.liveCount_add_size_free
  liveCount_pos _ := hp.liveCount_pos
  mem_alive_iff _ := mem_alive_iff hp
  alive_ascending := hp.alive_ascending
  length_alive := hp.length_alive

end WellFormed

/-- **The slots are partitioned.** Whatever is asked of a new pool, in either order
of reuse, its open slots are the live and the free ones, its counts are theirs,
and the list of the living is who is alive. -/
theorem partitioned_serve (o : ReuseOrder) (rs : List Request) :
    (serve { reuse := o } rs).Partitioned := ((wellFormed_empty o).serve rs).partitioned

end EntityWorld.SlotPool
