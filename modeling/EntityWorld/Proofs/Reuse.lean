/-
# Which free slot is taken again

The order in which free slots are taken is told by the history of a pool and not
by its queue. A slot is freed when its entity ends, and when a claim past the end
opens it without taking it; of the times at which it was freed the last one counts
(`SlotPool.lastFreed`). A spawn takes the free slot that was freed last, or the
one that was freed first, and opens a new slot only if none is free
(`SlotPool.spawn_serve`).

The queue has the free slots in the order of these times (`SlotPool.InOrder`).
What leaves it, from whatever place in it, does not change the order of the rest,
and what joins it joins at the back, later than all others.

Which slot a newcomer gets (`SlotPool.Due`) is one thing, and that the pool is left
with this slot taken another (`SlotPool.TakesIn`): it is live from then on and waits no
longer, there is one slot more if it is new, and the others are as they were.

Key definitions: `SlotPool.freed`, `SlotPool.lastFreed`, `SlotPool.Due`,
`SlotPool.TakesIn`.
Key theorems: `SlotPool.spawn_cases`, `SlotPool.InOrder.append`,
`SlotPool.inOrder_apply`, `SlotPool.takesIn_of_spawn`, `SlotPool.spawn_serve`.
-/
import EntityWorld.Proofs.ClaimOrder
import Mathlib.Tactic

namespace EntityWorld.SlotPool

variable {p q : SlotPool} {e : Handle} {i : UInt32}

/-! ### What the operations do to the queue -/

/-- A spawn takes a slot out of the queue, or opens one if the queue is empty. -/
theorem spawn_cases (hp : p.WellFormed) (h : spawn p = .ok e q) :
    q.reuse = p.reuse ∧ q.liveCount = p.liveCount + 1 ∧
      (p.takeFree = some (e.index, q.free) ∧ q.slots.size = p.slots.size ∨
        p.free = #[] ∧ q.free = #[] ∧ q.slots.size = p.slots.size + 1 ∧ e = ⟨p.next, 0⟩) := by
  unfold spawn at h
  split at h
  · next j rest htake =>
    cases h
    exact ⟨rfl, rfl, Or.inl ⟨htake, size_occupy⟩⟩
  · next htake =>
    have hempty := takeFree_eq_none_iff.mp htake
    split at h
    · next hroom =>
      have hfirst := (hp.offers_push hroom).fst_occupy
      have hnew : p.slotAt p.next.toNat = {} := slotAt_of_size_le hp.toNat_next.ge
      have hsize : (p.slots.push {}).size = p.slots.size + 1 := Array.size_push _
      have hcurrent : p.current p.next = ⟨p.next, 0⟩ :=
        congrArg (fun s : Slot => Handle.mk p.next s.generation) hnew
      cases h
      exact ⟨rfl, rfl, Or.inr ⟨hempty, hempty, size_occupy.trans hsize, hfirst.trans hcurrent⟩⟩
    · cases h

/-- A spawn fails only if every slot that there can be is taken. -/
theorem full_of_spawn_error {cause : HandleError} (hp : p.WellFormed)
    (h : spawn p = .error cause q) :
    cause = .exhausted ∧ q = p ∧ p.free = #[] ∧ p.slots.size = limit.toNat := by
  unfold spawn at h
  split at h
  · cases h
  · next htake =>
    split at h
    · cases h
    · next hfull =>
      cases h
      exact ⟨rfl, rfl, takeFree_eq_none_iff.mp htake,
        le_antisymm hp.size_le (Nat.le_of_not_lt hfull)⟩

theorem eq_of_kill (h : kill e p = .ok () q) :
    q.reuse = p.reuse ∧ q.free = p.free.push e.index ∧ q.liveCount = p.liveCount - 1 := by
  unfold kill at h
  split at h
  · cases h
    exact ⟨rfl, rfl, rfl⟩
  · cases h

theorem not_isAlive_of_kill_error {cause : HandleError} (h : kill e p = .error cause q) :
    ¬ p.isAlive e := fun halive => by
  rw [kill, if_pos halive] at h
  cases h

/-- Nothing that is asked of a pool changes the order of reuse. -/
theorem reuse_apply (hp : p.WellFormed) (r : Request) : (r.apply p).reuse = p.reuse := by
  cases r with
  | spawn =>
    cases h : spawn p with
    | ok e q => exact (congrArg _ (after_of_ok h)).trans (spawn_cases hp h).1
    | error c q => exact congrArg _ ((after_of_error h).trans (eq_of_spawn_error h))
  | kill e =>
    cases h : kill e p with
    | ok _ q => exact (congrArg _ (after_of_ok h)).trans (eq_of_kill h).1
    | error c q => exact congrArg _ ((after_of_error h).trans (eq_of_kill_error h))
  | claim i =>
    cases h : claim i p with
    | ok e q => exact (congrArg _ (after_of_ok h)).trans (eq_of_claim hp h).1
    | error c q => exact congrArg _ ((after_of_error h).trans (eq_of_claim_error h))

/-! ### When slots are freed -/

/-- The slots that a request frees, in order: that of an entity which ends, and
those that a claim past the end skips. -/
def Request.frees : Request → SlotPool → List UInt32
  | spawn, _ => []
  | kill e, p => if p.isAlive e then [e.index] else []
  | claim i, p => if i = limit then [] else opened p.slots.size i.toNat

/-- The slots that some requests free, in order. -/
def freed : SlotPool → List Request → List UInt32
  | _, [] => []
  | p, r :: rs => r.frees p ++ freed (r.apply p) rs

/-- When a slot was freed last, as the place of that among all times that slots
were freed; zero if it was never freed. -/
def lastFreed (xs : List UInt32) (i : UInt32) : Nat := xs.length - xs.reverse.idxOf i

theorem lastFreed_le (xs : List UInt32) (i : UInt32) : lastFreed xs i ≤ xs.length := Nat.sub_le _ _

theorem lastFreed_concat (xs : List UInt32) (i j : UInt32) :
    lastFreed (xs ++ [j]) i = if i = j then xs.length + 1 else lastFreed xs i := by
  unfold lastFreed
  rw [List.reverse_append, List.reverse_singleton, List.singleton_append, List.idxOf_cons,
    List.length_append, List.length_singleton]
  by_cases h : i = j
  · simp [h]
  · have hne : (j == i) = false := beq_false_of_ne (Ne.symm h)
    rw [if_neg h, hne]
    simp only [cond_false]
    omega

/-- A list of slots is in the order in which they were freed last. -/
structure InOrder (xs l : List UInt32) : Prop where
  mem : ∀ i ∈ l, i ∈ xs
  pairwise : l.Pairwise fun i j => lastFreed xs i < lastFreed xs j

namespace InOrder

variable {xs l l' : List UInt32}

theorem sublist (h : InOrder xs l) (hl : l'.Sublist l) : InOrder xs l' :=
  ⟨fun i hi => h.mem i (hl.subset hi), h.pairwise.sublist hl⟩

/-- A slot that is freed joins at the back, later than all others. -/
theorem concat (h : InOrder xs l) (hi : i ∉ l) : InOrder (xs ++ [i]) (l ++ [i]) := by
  have hold : ∀ j ∈ l, lastFreed (xs ++ [i]) j = lastFreed xs j := fun j hj => by
    rw [lastFreed_concat, if_neg fun heq : j = i => hi (heq ▸ hj)]
  constructor
  · intro j hj
    rcases List.mem_append.mp hj with hj | hj
    · exact List.mem_append_left _ (h.mem j hj)
    · exact List.mem_append_right _ hj
  · refine List.pairwise_append.mpr ⟨?_, List.pairwise_singleton _ _, fun j hj k hk => ?_⟩
    · refine h.pairwise.imp_of_mem fun {j k} hj hk hlt => ?_
      rwa [hold j hj, hold k hk]
    · rw [List.mem_singleton.mp hk, hold j hj, lastFreed_concat, if_pos rfl]
      exact Nat.lt_succ_of_le (lastFreed_le xs j)

/-- Slots that are freed in a row join in this order. -/
theorem append {ys : List UInt32} (h : InOrder xs l) (hnodup : (l ++ ys).Nodup) :
    InOrder (xs ++ ys) (l ++ ys) := by
  induction ys generalizing xs l with
  | nil => simpa using h
  | cons y ys ih =>
    rw [List.append_cons] at hnodup
    have hy : y ∉ l := fun hy =>
      (List.nodup_append.mp hnodup.of_append_left).2.2 y hy y (List.mem_singleton_self y) rfl
    rw [List.append_cons xs, List.append_cons l]
    exact ih (h.concat hy) hnodup

end InOrder

/-! ### The queue is in order -/

/-- What a claim leaves of the queue: it takes out the slot that is claimed, after the
slots that are skipped have joined. -/
theorem sublist_of_claim (hp : p.WellFormed) (h : claim i p = .ok e q) :
    q.free.toList.Sublist (p.free.toList ++ opened p.slots.size i.toNat) := by
  obtain ⟨-, hsize, hfree⟩ := eq_of_claim hp h
  rw [hfree, hsize]
  by_cases hi : p.slots.size ≤ i.toNat
  · have hlast : opened i.toNat (i.toNat + 1) = [i] := by simp [opened]
    rw [max_eq_right (by omega), ← opened_append hi (Nat.le_succ _), hlast, ← List.append_assoc,
      List.filter_append, List.filter_singleton, bne_self_eq_false, cond_false, List.append_nil]
    exact List.filter_sublist
  · have hnone : opened p.slots.size p.slots.size = [] := by simp [opened]
    rw [max_eq_left (by omega), hnone, List.append_nil]
    exact List.filter_sublist.trans (List.sublist_append_left _ _)

/-- A claim that is refused would skip no slot. -/
theorem opened_of_claim_error {cause : HandleError} (hi : i ≠ limit)
    (h : claim i p = .error cause q) : opened p.slots.size i.toNat = [] := by
  have hlt : i.toNat < p.slots.size := by
    by_contra hle
    have hvacant : (p.slotAt i.toNat).live = false :=
      congrArg Slot.live (slotAt_of_size_le (Nat.le_of_not_lt hle))
    obtain ⟨e, q', hc⟩ := exists_claim hi hvacant
    rw [hc] at h
    cases h
  simp [opened, Nat.sub_eq_zero_of_le hlt.le]

theorem nodup_free_append_opened (hp : p.WellFormed) (hi : i ≠ limit) :
    (p.free.toList ++ opened p.slots.size i.toNat).Nodup := by
  by_cases hle : p.slots.size ≤ i.toNat
  · have hnodup := (hp.offers_openUpTo hle hi).free_nodup
    simpa [openUpTo, opened] using hnodup
  · have hnone : opened p.slots.size i.toNat = [] := by
      simp [opened, Nat.sub_eq_zero_of_le (Nat.le_of_not_le hle)]
    rw [hnone, List.append_nil]
    exact hp.free_nodup

/-- Every request keeps the queue in order. -/
theorem inOrder_apply {xs : List UInt32} (hp : p.WellFormed) (h : InOrder xs p.free.toList)
    (r : Request) : InOrder (xs ++ r.frees p) (r.apply p).free.toList := by
  cases r with
  | spawn =>
    rw [Request.frees, List.append_nil]
    change InOrder xs (after spawn p).free.toList
    cases hs : spawn p with
    | ok e q =>
      rw [after_of_ok hs]
      rcases (spawn_cases hp hs).2.2 with ⟨htake, -⟩ | ⟨-, hfree, -⟩
      · refine h.sublist ?_
        rw [free_eq_of_takeFree htake]
        split
        · exact List.sublist_append_left _ _
        · exact List.sublist_cons_self _ _
      · rw [hfree]
        exact h.sublist (List.nil_sublist _)
    | error c q =>
      rw [after_of_error hs, eq_of_spawn_error hs]
      exact h
  | kill e =>
    change InOrder (xs ++ if p.isAlive e then [e.index] else []) (after (kill e) p).free.toList
    cases hk : kill e p with
    | ok u q =>
      have halive := (leaves_of_kill hk).alive
      have hlive : e.index ∉ p.free.toList := fun hm => by
        have hvacant := ((hp.mem_free e.index).mp hm).2
        exact Bool.false_ne_true (hvacant.symm.trans (isAlive_iff_slotAt.mp halive).1)
      rw [after_of_ok hk, (eq_of_kill hk).2.1, Array.toList_push, if_pos halive]
      exact h.concat hlive
    | error c q =>
      have hdead := not_isAlive_of_kill_error hk
      rw [after_of_error hk, eq_of_kill_error hk, if_neg hdead, List.append_nil]
      exact h
  | claim i =>
    change InOrder (xs ++ if i = limit then [] else opened p.slots.size i.toNat)
      (after (claim i) p).free.toList
    by_cases hi : i = limit
    · have hc : claim i p = .error (.outOfRange i) p := if_pos hi
      rw [after_of_error hc, if_pos hi, List.append_nil]
      exact h
    · rw [if_neg hi]
      cases hc : claim i p with
      | ok e q =>
        rw [after_of_ok hc]
        exact (h.append (nodup_free_append_opened hp hi)).sublist (sublist_of_claim hp hc)
      | error c q =>
        rw [after_of_error hc, eq_of_claim_error hc, opened_of_claim_error hi hc, List.append_nil]
        exact h

/-- And so do any number of them. -/
theorem inOrder_serve {xs : List UInt32} (hp : p.WellFormed) (h : InOrder xs p.free.toList)
    (rs : List Request) :
    InOrder (xs ++ freed p rs) (p.serve rs).free.toList ∧ (p.serve rs).reuse = p.reuse := by
  induction rs generalizing p xs with
  | nil => simpa [freed, serve] using h
  | cons r rs ih =>
    obtain ⟨horder, hreuse⟩ := ih (hp.apply r) (inOrder_apply hp h r)
    rw [List.append_assoc] at horder
    exact ⟨horder, hreuse.trans (reuse_apply hp r)⟩

/-! ### Which slots wait -/

/-- A slot is open, and nobody lives there. -/
def Waits (p : SlotPool) (i : UInt32) : Prop :=
  i.toNat < p.slots.size ∧ (p.slotAt i.toNat).live = false

/-- The pool after a newcomer came: its slot is live and has left the queue, which keeps
the order of the rest, and there is one slot more only if the newcomer's is new. -/
structure TakesIn (p : SlotPool) (e : Handle) (q : SlotPool) : Prop where
  enters : Enters p e q
  reuse_eq : q.reuse = p.reuse
  liveCount_eq : q.liveCount = p.liveCount + 1
  size_eq : q.slots.size = if e.index = p.next then p.slots.size + 1 else p.slots.size
  free_eq : q.free.toList = p.free.toList.erase e.index
  waits_iff : ∀ i, q.Waits i ↔ i ≠ e.index ∧ p.Waits i

/-- The slot that was taken, if it was. -/
def taken? : EStateM.Result HandleError SlotPool Handle → Option UInt32
  | .ok e _ => some e.index
  | .error _ _ => none

/-- The slot that a request takes. -/
def Request.takes? : Request → SlotPool → Option UInt32
  | spawn, p => taken? (SlotPool.spawn p)
  | claim i, p => taken? (SlotPool.claim i p)
  | kill _, _ => none

/-- None of some requests takes the slot. -/
def Untaken (p : SlotPool) (rs : List Request) (i : UInt32) : Prop :=
  Throughout Request.apply (fun r p => r.takes? p ≠ some i) p rs

/-- The slots that wait are those in the queue. -/
theorem WellFormed.waits_iff (hp : p.WellFormed) : p.Waits i ↔ i ∈ p.free.toList :=
  (hp.mem_free i).symm

/-- A slot that waits is none that is still to be opened. -/
theorem Waits.ne_next (h : p.Waits i) (hp : p.WellFormed) : i ≠ p.next := by
  rintro rfl
  have hlt := h.1
  rw [hp.toNat_next] at hlt
  exact lt_irrefl _ hlt

theorem not_waits_of_free_eq (hp : p.WellFormed) (hempty : p.free = #[]) (i : UInt32) :
    ¬ p.Waits i := by
  rw [hp.waits_iff, hempty]
  exact List.not_mem_nil

theorem waits_of_takeFree {rest : Array UInt32} (hp : p.WellFormed)
    (h : p.takeFree = some (i, rest)) : p.Waits i :=
  hp.waits_iff.mpr ((perm_of_takeFree h).mem_iff.mpr List.mem_cons_self)

/-- What is left of the queue, whichever end is taken from. -/
theorem toList_of_takeFree {rest : Array UInt32} (hp : p.WellFormed)
    (h : p.takeFree = some (i, rest)) : rest.toList = p.free.toList.erase i := by
  have hnew := (List.nodup_cons.mp ((perm_of_takeFree h).nodup_iff.mp hp.free_nodup)).1
  rw [free_eq_of_takeFree h]
  split
  · rw [List.erase_append_right _ hnew, List.erase_cons_head, List.append_nil]
  · exact (List.erase_cons_head ..).symm

/-- A spawn takes one slot out of the queue or adds one, and makes it live. -/
theorem takesIn_of_spawn (hp : p.WellFormed) (h : spawn p = .ok e q) : p.TakesIn e q := by
  obtain ⟨hreuse, hcount, hslot⟩ := spawn_cases hp h
  have hfree : q.free.toList = p.free.toList.erase e.index := by
    rcases hslot with ⟨htake, -⟩ | ⟨hold, hnew, -⟩
    · exact toList_of_takeFree hp htake
    · rw [hold, hnew]
      rfl
  refine ⟨enters_of_spawn hp h, hreuse, hcount, ?_, hfree, fun i => ?_⟩
  · rcases hslot with ⟨htake, hsize⟩ | ⟨-, -, hsize, rfl⟩
    · rw [if_neg ((waits_of_takeFree hp htake).ne_next hp)]
      exact hsize
    · rw [if_pos rfl]
      exact hsize
  · calc q.Waits i
        ↔ i ∈ q.free.toList := (wellFormed_of_spawn hp h).waits_iff
      _ ↔ i ≠ e.index ∧ i ∈ p.free.toList := by rw [hfree, hp.free_nodup.mem_erase_iff]
      _ ↔ i ≠ e.index ∧ p.Waits i := and_congr_right fun _ => hp.waits_iff.symm

/-- A slot waits after a request if the request frees it, or if it waited before and is not
taken. -/
theorem waits_apply_iff (hp : p.WellFormed) (r : Request) (i : UInt32) :
    (r.apply p).Waits i ↔ i ∈ r.frees p ∨ p.Waits i ∧ r.takes? p ≠ some i := by
  cases r with
  | spawn =>
    rw [Request.apply, Request.frees, Request.takes?]
    cases hs : spawn p with
    | ok e q =>
      rw [after_of_ok hs, (takesIn_of_spawn hp hs).waits_iff]
      simp [taken?, and_comm, eq_comm]
    | error c q =>
      rw [after_of_error hs, eq_of_spawn_error hs]
      simp [taken?]
  | kill e =>
    rw [Request.apply, Request.frees, Request.takes?]
    cases hk : kill e p with
    | ok u q =>
      rw [after_of_ok hk, (wellFormed_of_kill hp hk).waits_iff, (eq_of_kill hk).2.1, hp.waits_iff,
        if_pos (leaves_of_kill hk).alive]
      simp [or_comm]
    | error c q =>
      rw [after_of_error hk, eq_of_kill_error hk, if_neg (not_isAlive_of_kill_error hk)]
      simp
  | claim j =>
    rw [Request.apply, Request.frees, Request.takes?]
    by_cases hj : j = limit
    · have hc : claim j p = .error (.outOfRange j) p := if_pos hj
      rw [after_of_error hc, hc, if_pos hj]
      simp [taken?]
    · rw [if_neg hj]
      cases hc : claim j p with
      | ok e q =>
        have hindex := (enters_of_claim hp hc).2
        obtain ⟨-, hsize, hfree⟩ := eq_of_claim hp hc
        have hq := wellFormed_of_claim hp hc
        have hjlt := j.toNat_lt
        have hlim : limit.toNat = 4294967295 := rfl
        have hle := hq.size_le
        have hopened : i ∈ opened p.slots.size q.slots.size ∧ i ≠ j ↔
            i ∈ opened p.slots.size j.toNat := by
          have hne : i = j ↔ i.toNat = j.toNat := UInt32.toNat_inj.symm
          rw [mem_opened (by omega), mem_opened (by omega), ne_eq, hne]
          omega
        rw [after_of_ok hc, hq.waits_iff, hfree, ← hopened, hp.waits_iff]
        simp only [List.mem_filter, List.mem_append, taken?, hindex, bne_iff_ne, ne_eq,
          Option.some_inj, eq_comm (a := j)]
        tauto
      | error c q =>
        rw [after_of_error hc, eq_of_claim_error hc, opened_of_claim_error hj hc]
        simp [taken?]

/-- After some requests a slot waits if one of them freed it and none took it since, or if it
waited before and none took it. -/
theorem waits_serve_iff (hp : p.WellFormed) (rs : List Request) (i : UInt32) :
    (p.serve rs).Waits i ↔
      (∃ rs₁ r rs₂, rs = rs₁ ++ r :: rs₂ ∧ i ∈ r.frees (p.serve rs₁) ∧
        Untaken (r.apply (p.serve rs₁)) rs₂ i) ∨
      p.Waits i ∧ Untaken p rs i :=
  holds_foldl_iff_of_keeps Request.apply (P := fun p => p.Waits i) (fun r _ _ hp => hp.apply r)
    (fun r _ _ hp => waits_apply_iff hp r i) hp

end SlotPool

/-! ### The slot that is due -/

open SlotPool in
/-- One slot is taken before another, by when they were freed last. -/
def ReuseOrder.Prefers (o : ReuseOrder) (xs : List UInt32) (i j : UInt32) : Prop :=
  match o with
  | .newestFirst => lastFreed xs j < lastFreed xs i
  | .oldestFirst => lastFreed xs i < lastFreed xs j

namespace SlotPool

/-- A newcomer gets the slot that is due: a new one if none waits, and of those that
wait the one that comes first in the order of reuse. -/
structure Due (o : ReuseOrder) (xs : List UInt32) (p : SlotPool) (e : Handle) : Prop where
  eq_current : e = p.current e.index
  opens_iff : e.index = p.next ↔ ∀ i, ¬ p.Waits i
  generation_eq_zero : e.index = p.next → e.generation = 0
  waits : e.index ≠ p.next → p.Waits e.index ∧ e.index ∈ xs
  prefers : ∀ i, p.Waits i → i ≠ e.index → o.Prefers xs e.index i

variable {p q : SlotPool} {e : Handle} {i : UInt32} {xs : List UInt32}

/-- The slot at the end of the queue that is taken from is the one that is due. -/
theorem prefers_of_takeFree {rest : Array UInt32} (h : InOrder xs p.free.toList)
    (htake : p.takeFree = some (i, rest)) :
    ∀ j ∈ p.free.toList, j ≠ i → p.reuse.Prefers xs i j := by
  have hpairwise := h.pairwise
  have hfree := free_eq_of_takeFree htake
  unfold ReuseOrder.Prefers
  cases hreuse : p.reuse with
  | newestFirst =>
    rw [hreuse] at hfree
    rw [hfree] at hpairwise ⊢
    intro j hj hne
    have hrest := (List.mem_append.mp hj).resolve_right fun hi => hne (List.mem_singleton.mp hi)
    exact (List.pairwise_append.mp hpairwise).2.2 j hrest i (List.mem_singleton_self i)
  | oldestFirst =>
    rw [hreuse] at hfree
    rw [hfree] at hpairwise ⊢
    intro j hj hne
    exact List.rel_of_pairwise_cons hpairwise ((List.mem_cons.mp hj).resolve_left hne)

/-- A spawn takes the slot that is due. -/
theorem due_of_spawn (hp : p.WellFormed) (hxs : InOrder xs p.free.toList)
    (h : spawn p = .ok e q) : Due p.reuse xs p e := by
  have hcurrent : e = p.current e.index := by
    obtain ⟨_, -, he, -⟩ := offers_of_spawn hp h
    exact he
  rcases (spawn_cases hp h).2.2 with ⟨htake, -⟩ | ⟨hempty, -, -, rfl⟩
  · have hwaits := waits_of_takeFree hp htake
    have hne := hwaits.ne_next hp
    exact ⟨hcurrent, iff_of_false hne fun hnone => hnone _ hwaits, fun heq => absurd heq hne,
      fun _ => ⟨hwaits, hxs.mem _ (hp.waits_iff.mp hwaits)⟩,
      fun j hj => prefers_of_takeFree hxs htake j (hp.waits_iff.mp hj)⟩
  · have hnone := not_waits_of_free_eq hp hempty
    exact ⟨hcurrent, iff_of_true rfl hnone, fun _ => rfl, fun hne => absurd rfl hne,
      fun j hj => absurd hj (hnone j)⟩

/-- **Free slots are taken in the order of reuse.** After any requests to an empty pool the
slots that wait are those that were freed and not taken since. A spawn takes the one that
is due by what was freed, and a new slot if none waits; the pool is left with this slot
taken. It fails only if every slot there can be is taken, and changes nothing then. -/
theorem spawn_serve (o : ReuseOrder) (rs : List Request) :
    let p := serve { reuse := o } rs
    (∀ i, p.Waits i ↔ ∃ rs₁ r rs₂, rs = rs₁ ++ r :: rs₂ ∧
      i ∈ r.frees (serve { reuse := o } rs₁) ∧
      Untaken (r.apply (serve { reuse := o } rs₁)) rs₂ i) ∧
    ((∃ e q, spawn p = .ok e q ∧ Due o (freed { reuse := o } rs) p e ∧ p.TakesIn e q) ∨
      spawn p = .error .exhausted p ∧ p.slots.size = limit.toNat ∧ ∀ i, ¬ p.Waits i) := by
  intro p
  have hnew := wellFormed_empty o
  have hp : p.WellFormed := hnew.serve rs
  refine ⟨fun i => (waits_serve_iff hnew rs i).trans (or_iff_left fun h => ?_), ?_⟩
  · exact not_waits_of_free_eq hnew rfl i h.1
  have hempty : InOrder [] ({ reuse := o } : SlotPool).free.toList :=
    ⟨fun _ hi => hi, List.Pairwise.nil⟩
  obtain ⟨horder, hreuse⟩ := inOrder_serve hnew hempty rs
  cases hs : spawn p with
  | ok e q =>
    have hdue := due_of_spawn hp horder hs
    rw [hreuse] at hdue
    exact Or.inl ⟨e, q, rfl, hdue, takesIn_of_spawn hp hs⟩
  | error c q =>
    obtain ⟨rfl, rfl, hfree, hfull⟩ := full_of_spawn_error hp hs
    exact Or.inr ⟨rfl, hfull, not_waits_of_free_eq hp hfree⟩

end SlotPool
end EntityWorld
