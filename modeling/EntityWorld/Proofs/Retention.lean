/-
# What a simulation remembers

A tick stamps with its number what it does, and drops the stamps that are too old by
then. So if no stamp is later than the last tick before some ticks, none is after
them, and those of the last ticks are all there is: a history of no ticks leaves an
empty journal (`Simulation.remembers_window`).

What the history still has to keep is not lost on the way. A stamp gives way to a later
one that stands for it only (`Journal.Key.standIns`): one of the same entity, or of the
same component or the end of its entity. Once there is such a stamp there is one
from then on, since a record stands for all that it clears.

A tick that stops for an error has stamped what it has done by then, and drops nothing.

Key definitions: `Journal.All`, `Journal.Overtaken`, `Journal.Retains`, `Journal.Stable`.
Key theorems: `Journal.Overtaken.record`, `Simulation.journal_stir`,
`Simulation.retains_afterTicks`, `Simulation.remembers_window`.
-/
import EntityWorld.Proofs.Horizon
import Mathlib.Tactic

namespace EntityWorld

/-! ### Journals -/

namespace Journal

/-- What the records of a version keep, and the setting of the clock to it. -/
structure Stable (u : Nat) (K : Journal → Prop) : Prop where
  setNow : ∀ {j}, K j → K { j with now := u }
  record : ∀ {j}, j.now = u → K j → ∀ r : Record, K (j.record r)

/-- Every stamp bears a version that `p` holds of. -/
def All (p : Nat → Prop) (j : Journal) : Prop := ∀ x v, j.stamp? x = some v → p v

namespace All

variable {p q : Nat → Prop} {j : Journal} {u : Nat}

theorem mono (h : j.All p) (hpq : ∀ v, p v → q v) : j.All q := fun x v hv => hpq v (h x v hv)

theorem stable (hu : p u) : Stable u (All p) where
  setNow h x v hv := h x v (by cases x <;> exact hv)
  record := by
    rintro j rfl h r x v hv
    rw [stamp?_record] at hv
    split at hv
    · cases hv
      exact hu
    · split at hv
      · cases hv
      · exact h x v hv

theorem prune (h : j.All p) (a : Nat) : (j.prune a).All fun v => p v ∧ a < v := by
  intro x v hv
  rw [stamp?_prune, Option.filter_eq_some_iff] at hv
  exact ⟨h x v hv.1, of_decide_eq_true hv.2⟩

theorem recent (h : j.All p) (n t : Nat) : (j.recent n t).All p := by
  unfold Journal.recent
  split
  · exact (h.prune _).mono fun _ => And.left
  · exact h

/-- Where no version may be stamped nothing is. -/
theorem isEmpty (h : j.All fun _ => False) : j.isEmpty := by
  have hempty : j = { now := j.now } :=
    eq_of_stamp? rfl fun x => by
      rw [Option.eq_none_iff_forall_ne_some.mpr (h x)]
      cases x <;> rfl
  rw [hempty]
  rfl

end All

instance {p : Nat → Prop} [DecidablePred p] (j : Journal) : Decidable (j.All p) :=
  decidable_of_iff ((∀ x ∈ j.created.toList, p x.2) ∧ (∀ x ∈ j.destroyed.toList, p x.2) ∧
    (∀ x ∈ j.updated.toList, p x.2) ∧ ∀ x ∈ j.removed.toList, p x.2) (by
    simp only [Prod.forall, Std.ExtTreeMap.mem_toList_iff_getElem?_eq_some]
    constructor
    · rintro ⟨hcreated, hdestroyed, hupdated, hremoved⟩ x v hv
      cases x with
      | created e => exact hcreated e v hv
      | destroyed e => exact hdestroyed e v hv
      | updated e t => exact hupdated ⟨e, t⟩ v hv
      | removed e t => exact hremoved ⟨e, t⟩ v hv
    · intro h
      exact ⟨fun e => h (.created e), fun e => h (.destroyed e),
        fun k => h (.updated k.entity k.tag), fun k => h (.removed k.entity k.tag)⟩)

/-- The keys whose later stamps stand for the stamp of a key: those of the same entity or
component, and for a component the end of its entity. -/
def Key.standIns : Key → List Key
  | .created e => [.created e]
  | .destroyed e => [.destroyed e]
  | .updated e t | .removed e t => [.updated e t, .removed e t, .destroyed e]

/-- A stamp after `a` stands for that of a key. -/
def Overtaken (a : Nat) (j : Journal) (x : Key) : Prop :=
  ∃ y ∈ x.standIns, ∃ v, a < v ∧ j.stamp? y = some v

section Overtaken

variable {a b : Nat} {j : Journal} {x y : Key} {r : Record}

theorem Key.mem_standIns_self (x : Key) : x ∈ x.standIns := by
  cases x <;> simp [standIns]

/-- A record stands for what it clears. -/
theorem Record.key_mem_standIns (hr : r.clears y) (hy : y ∈ x.standIns) : r.key ∈ x.standIns := by
  cases r <;> cases y <;> cases x <;> simp_all [clears, key, Key.standIns]

theorem overtaken_record_of_mem (ha : a < j.now) (hr : r.key ∈ x.standIns) :
    (j.record r).Overtaken a x :=
  ⟨r.key, hr, j.now, ha, by rw [stamp?_record, if_pos rfl]⟩

/-- What is overtaken stays so, whatever is recorded. -/
theorem Overtaken.record (h : j.Overtaken a x) (ha : a < j.now) (r : Record) :
    (j.record r).Overtaken a x := by
  obtain ⟨y, hy, v, hv, hstamp⟩ := h
  by_cases hkey : y = r.key
  · exact overtaken_record_of_mem ha (hkey ▸ hy)
  · by_cases hclears : r.clears y
    · exact overtaken_record_of_mem ha (Record.key_mem_standIns hclears hy)
    · exact ⟨y, hy, v, hv, by rw [stamp?_record, if_neg hkey, if_neg hclears, hstamp]⟩

theorem Overtaken.prune (h : j.Overtaken a x) (hle : b ≤ a) : (j.prune b).Overtaken a x := by
  obtain ⟨y, hy, v, hv, hstamp⟩ := h
  refine ⟨y, hy, v, hv, ?_⟩
  rw [stamp?_prune, hstamp, Option.filter_some, if_pos (decide_eq_true (hle.trans_lt hv))]

end Overtaken

/-- The stamps that `p` holds of are still there, but where one after `a` overtook them. -/
def Retains (p : Nat → Bool) (a : Nat) (j₀ j : Journal) : Prop :=
  ∀ x v, p v → j₀.stamp? x = some v → j.stamp? x = some v ∨ j.Overtaken a x

namespace Retains

variable {p : Nat → Bool} {a b u : Nat} {j₀ j : Journal}

theorem refl (p : Nat → Bool) (a : Nat) (j : Journal) : Retains p a j j := fun _ _ _ => Or.inl

/-- There is nothing to retain where no stamp counts. -/
theorem of_forall_not (h : j₀.All fun v => ¬ p v) : Retains p a j₀ j :=
  fun x v hp hv => (h x v hv hp).elim

theorem stable (ha : a < u) : Stable u (Retains p a j₀) where
  setNow h x v hp hv := by cases x <;> exact h _ v hp hv
  record := by
    rintro j rfl h r x v hp hv
    have hself := x.mem_standIns_self
    rcases h x v hp hv with hstamp | hovertaken
    · rw [stamp?_record]
      split
      · next hkey => exact Or.inr (overtaken_record_of_mem ha (hkey ▸ hself))
      · split
        · next hclears =>
          exact Or.inr (overtaken_record_of_mem ha (Record.key_mem_standIns hclears hself))
        · exact Or.inl hstamp
    · exact Or.inr (hovertaken.record ha r)

/-- Pruning before the stamps that count, and not past `a`. -/
theorem prune (h : Retains p a j₀ j) (hp : ∀ v, p v → b < v) (hle : b ≤ a) :
    Retains p a j₀ (j.prune b) := by
  intro x v hv h₀
  refine (h x v hv h₀).imp (fun hx => ?_) fun hx => hx.prune hle
  rw [stamp?_prune, hx, Option.filter_some, if_pos (decide_eq_true (hp v hv))]

theorem recent (h : Retains p a j₀ j) {n t : Nat} (hp : ∀ v, p v → t < v + n) (hle : t ≤ a + n) :
    Retains p a j₀ (j.recent n t) := by
  unfold Journal.recent
  split
  · refine h.prune (fun v hv => ?_) (by omega)
    have hlt := hp v hv
    omega
  · exact h

end Retains
end Journal

variable {κ : Type} [Family κ] [DecidableEq κ]

/-! ### Ticks -/

/-- The operations of a tick make no records of other sorts. -/
theorem Change.keeps_stable {op : Operation κ} {w w' : World κ} {u : Nat} {K : Journal → Prop}
    (h : Change op w w') (hop : op.Stirs) (hK : Journal.Stable u K) (hnow : w.journal.now = u)
    (hw : K w.journal) : K w'.journal := by
  cases h with
  | enter => exact hK.record hnow hw (.creation _)
  | leave => exact hK.record hnow hw (.destruction _)
  | write => exact hK.record hnow hw (.update _ _)
  | stamp => exact hK.record hnow hw (.update _ _)
  | discard => exact hop.elim
  | setVersion => exact hop.elim
  | prune => exact hop.elim
  | forget => exact hop.elim
  | _ => exact hw

namespace Simulation

open Journal

variable {s : Simulation κ} {K : Journal → Prop} {p : Nat → Bool} {a : Nat} {j₀ : Journal}

/-- What the records of a version keep, a tick of that version keeps up to the pruning. -/
theorem journal_stir (hK : Stable (s.tick + 1) K) (hw : s.world.pool.WellFormed)
    (hs : K s.world.journal) (dt : Double) :
    (after (stir dt) s).world.pool.WellFormed ∧
      (after (stir dt) s).world.journal.now = s.tick + 1 ∧ K (after (stir dt) s).world.journal := by
  let J (w : World (Stocked κ)) : Prop :=
    w.pool.WellFormed ∧ w.journal.now = s.tick + 1 ∧ K w.journal
  have hJ : ∀ op : Operation (Stocked κ), op.Stirs → ∀ w, J w → J (op.apply w) := by
    intro op hop w hw
    refine Change.keeps_row (I := J) (fun hc hw => ?_) (Change.row_apply op hw.1) hw
    obtain ⟨hpool, hnow, hjournal⟩ := hw
    exact ⟨hc.pool_wellFormed hpool, (hc.destroyedAt?_eq_or hop).1.trans hnow,
      hc.keeps_stable hop hK hnow hjournal⟩
  have hbegun : J (s.world.setVersion (s.tick + 1)) := ⟨hw, rfl, hK.setNow hs⟩
  exact (within_stir_of_closed hJ hbegun dt).2.2

/-- A tick gets to the pruning or fails before it. -/
theorem advance_cases (dt : Double) (s : Simulation κ) :
    (∃ t, stir dt s = .ok () t ∧ advance dt s = .ok () { t with
      world.journal := t.world.journal.recent s.rules.historyTicks (s.tick + 1) }) ∨
    ∃ c t, stir dt s = .error c t ∧ advance dt s = .error c t := by
  obtain ⟨htick, hrules, -⟩ := exists_run_stir dt s
  rw [advance_eq]
  cases h : stir dt s with
  | ok _ t =>
    rw [after_of_ok h] at htick hrules
    refine Or.inl ⟨t, rfl, ?_⟩
    rw [bind_of_ok h, Shares.pruneHistory_eq_recent, hrules, htick]
  | error c t => exact Or.inr ⟨c, t, rfl, bind_of_error h⟩

/-- What the records of a version keep, and the pruning too, a tick keeps. -/
theorem journal_advance (hK : Stable (s.tick + 1) K)
    (hrecent : ∀ {j}, K j → K (j.recent s.rules.historyTicks (s.tick + 1)))
    (hw : s.world.pool.WellFormed) (hs : K s.world.journal) (dt : Double) :
    (after (advance dt) s).world.pool.WellFormed ∧
      (after (advance dt) s).world.journal.now = s.tick + 1 ∧
      K (after (advance dt) s).world.journal := by
  obtain ⟨hpool, hnow, hjournal⟩ := journal_stir hK hw hs dt
  rcases advance_cases dt s with ⟨t, hstir, hadvance⟩ | ⟨c, t, hstir, hadvance⟩
  · rw [after_of_ok hstir] at hpool hnow hjournal
    rw [after_of_ok hadvance]
    exact ⟨hpool, (shares_recent _ _ t.world.journal).now_eq.trans hnow, hrecent hjournal⟩
  · rw [after_of_error hstir] at hpool hnow hjournal
    rw [after_of_error hadvance]
    exact ⟨hpool, hnow, hjournal⟩

/-- No tick stamps a later version than its own. -/
theorem all_le_advance (hw : s.world.pool.WellFormed) (hs : s.world.journal.All (· ≤ s.tick))
    (dt : Double) :
    (after (advance dt) s).world.pool.WellFormed ∧
      (after (advance dt) s).world.journal.now = s.tick + 1 ∧
      (after (advance dt) s).world.journal.All (· ≤ s.tick + 1) :=
  journal_advance (All.stable (p := (· ≤ s.tick + 1)) (Nat.le_refl _)) (fun h => h.recent _ _) hw
    (hs.mono fun _ => Nat.le_succ_of_le) dt

theorem all_le_afterTicks (hw : s.world.pool.WellFormed) (hs : s.world.journal.All (· ≤ s.tick))
    (dts : List Double) :
    (s.afterTicks dts).world.pool.WellFormed ∧
      (s.afterTicks dts).world.journal.All (· ≤ (s.afterTicks dts).tick) := by
  induction dts generalizing s with
  | nil => exact ⟨hw, hs⟩
  | cons dt dts ih =>
    obtain ⟨hw', -, hs'⟩ := all_le_advance hw hs dt
    rw [← (tick_after_advance dt s).1] at hs'
    exact ih hw' hs'

/-- As long as the history reaches back to `a`, ticks drop no stamp that it still has to
keep. -/
theorem retains_afterTicks {dts : List Double} (h : Retains p a j₀ s.world.journal)
    (hw : s.world.pool.WellFormed) (ha : a ≤ s.tick)
    (hp : ∀ v, p v → (s.afterTicks dts).tick < v + s.rules.historyTicks)
    (hle : (s.afterTicks dts).tick ≤ a + s.rules.historyTicks) :
    Retains p a j₀ (s.afterTicks dts).world.journal := by
  induction dts generalizing s with
  | nil => exact h
  | cons dt dts ih =>
    obtain ⟨htick, hrules⟩ := tick_after_advance dt s
    have hend := (tick_afterTicks s (dt :: dts)).1
    rw [List.length_cons] at hend
    have hfirst : ∀ v, p v → s.tick + 1 < v + s.rules.historyTicks := fun v hv => by
      have hlt := hp v hv
      omega
    obtain ⟨hw', -, h'⟩ := journal_advance (Retains.stable (Nat.lt_succ_of_le ha))
      (fun h => h.recent hfirst (by omega)) hw h dt
    rw [← hrules] at hp hle
    exact ih h' hw' (htick ▸ Nat.le_succ_of_le ha) hp hle

/-- Those of the stamps after some ticks that are in the window after more are still there
then. -/
theorem retains_window (hw : s.world.pool.WellFormed) (hs : s.world.journal.All (· ≤ s.tick))
    (dts : List Double) :
    s.world.journal.Retains (window s.rules.historyTicks (s.afterTicks dts).tick) s.tick
      (s.afterTicks dts).world.journal := by
  by_cases hle : (s.afterTicks dts).tick ≤ s.tick + s.rules.historyTicks
  · exact retains_afterTicks (.refl _ _ _) hw (Nat.le_refl _) (fun v => of_decide_eq_true) hle
  · refine .of_forall_not (hs.mono fun v hv hwindow => ?_)
    have hlt := of_decide_eq_true hwindow
    omega

/-- The same for the stamps after the first `n` of some ticks. -/
theorem retains_window_take (hw : s.world.pool.WellFormed)
    (hs : s.world.journal.All (· ≤ s.tick)) {dts : List Double} {n : Nat} (hn : n ≤ dts.length) :
    (s.afterTicks (dts.take n)).world.journal.Retains
      (window s.rules.historyTicks (s.afterTicks dts).tick) (s.tick + n)
      (s.afterTicks dts).world.journal := by
  obtain ⟨htick, hrules⟩ := tick_afterTicks s (dts.take n)
  rw [List.length_take, Nat.min_eq_left hn] at htick
  obtain ⟨hpool, hall⟩ := all_le_afterTicks hw hs (dts.take n)
  have hretains := retains_window hpool hall (dts.drop n)
  rwa [← afterTicks_append, List.take_append_drop, hrules, htick] at hretains

/-- In a scene that is ready and has room all ticks succeed. -/
theorem Ready.afterTicks (h : s.Ready) (hroom : s.HasRoom) (dts : List Double) :
    (s.afterTicks dts).Ready ∧ (s.afterTicks dts).HasRoom := by
  induction dts generalizing s with
  | nil => exact ⟨h, hroom⟩
  | cons dt dts ih =>
    obtain ⟨t, hok, -, -, -, hready, hroom'⟩ := h.advance hroom dt
    rw [afterTicks_cons, after_of_ok hok]
    exact ih hready hroom'

/-- What a tick that gets to its end leaves of the journal is what the history keeps of it. -/
theorem journal_of_advance {dt : Double} {t : Simulation κ} (h : advance dt s = .ok () t) :
    t.world.journal =
      (after (stir dt) s).world.journal.recent s.rules.historyTicks (s.tick + 1) := by
  rcases advance_cases dt s with ⟨u, hstir, hadvance⟩ | ⟨c, u, -, hadvance⟩
  · rw [hadvance] at h
    cases h
    rw [after_of_ok hstir]
  · rw [hadvance] at h
    cases h

/-- After such a tick all stamps are in the window, once there were enough ticks. -/
theorem all_window_advance {dt : Double} {t : Simulation κ} (h : advance dt s = .ok () t)
    (hw : s.world.pool.WellFormed) (hs : s.world.journal.All (· ≤ s.tick))
    (hlong : s.rules.historyTicks ≤ s.tick + 1) :
    t.world.journal.All fun v => v ≤ s.tick + 1 ∧ s.tick + 1 - s.rules.historyTicks < v := by
  obtain ⟨-, -, hstir⟩ := journal_stir (All.stable (p := (· ≤ s.tick + 1)) (Nat.le_refl _)) hw
    (hs.mono fun _ => Nat.le_succ_of_le) dt
  rw [journal_of_advance h, Journal.recent, if_pos hlong]
  exact hstir.prune _

/-- **A simulation remembers the window of its last ticks.** Start where no stamp is later
than the last tick. After each of any number of ticks the world has the number of the
tick for a version, no stamp is later than that, and of the stamps that there were after
an earlier tick all that are still in the window are kept, unless a later one of the
same took their place. A tick that gets to its end drops what is out of the window
and nothing else, so with a history of no ticks it leaves none. In a scene that is
ready and has room every tick gets there. -/
theorem remembers_window (hw : s.world.pool.WellFormed) (hs : s.world.journal.All (· ≤ s.tick))
    (dts : List Double) (dt : Double) :
    let t := s.afterTicks dts
    let t' := after (advance dt) t
    t'.tick = s.tick + dts.length + 1 ∧ t'.world.journal.now = t'.tick ∧
    t'.world.journal.All (· ≤ t'.tick) ∧
    (∀ n ≤ dts.length, (s.afterTicks (dts.take n)).world.journal.Retains
      (window s.rules.historyTicks t'.tick) (s.tick + n) t'.world.journal) ∧
    (advance dt t = .ok () t' →
      t'.world.journal =
        (after (stir dt) t).world.journal.recent s.rules.historyTicks t'.tick ∧
      (s.rules.historyTicks ≤ t'.tick →
        t'.world.journal.All (t'.tick - s.rules.historyTicks < ·)) ∧
      (s.rules.historyTicks = 0 → t'.world.journal.isEmpty)) ∧
    (s.Ready → s.HasRoom → advance dt t = .ok () t') := by
  intro t t'
  obtain ⟨htick, hrules⟩ := tick_afterTicks s dts
  have htick' : t'.tick = t.tick + 1 := (tick_after_advance dt t).1
  obtain ⟨hpool, hall⟩ := all_le_afterTicks hw hs dts
  obtain ⟨-, hnow, hall'⟩ := all_le_advance hpool hall dt
  rw [← htick'] at hnow hall'
  refine ⟨by rw [htick', htick], hnow, hall', fun n hn => ?_, fun hok => ?_, fun hready hroom => ?_⟩
  · have hlength : n ≤ (dts ++ [dt]).length := by
      rw [List.length_append]
      omega
    have hretains := retains_window_take hw hs hlength
    rw [List.take_append_of_le_length hn, afterTicks_append] at hretains
    exact hretains
  · have hjournal := journal_of_advance hok
    have hwindow := all_window_advance hok hpool hall
    rw [← htick', hrules] at hjournal hwindow
    refine ⟨hjournal, fun hlong => (hwindow hlong).mono fun _ => And.right, fun hnone => ?_⟩
    refine ((hwindow (by omega)).mono fun v hv => ?_).isEmpty
    omega
  · obtain ⟨hready', hroom'⟩ := hready.afterTicks hroom dts
    obtain ⟨u, hok, -⟩ := hready'.advance hroom' dt
    exact hok.trans (by rw [← after_of_ok hok])

/-- Particles that go and come, remembered for one tick: after the third nothing is known of
the second. -/
theorem remembers_window_gapped :
    let t := (gapped.remember 1).afterTicks [⟨0x3ff0000000000000⟩, ⟨0x7ff8000000000000⟩]
    let t' := after (advance ⟨0x3fd0000000000000⟩) t
    (gapped.remember 1).world.journal.All (· ≤ 0) ∧ t'.tick = 3 ∧
      t'.world.journal.All (· ≤ 3) ∧ t'.world.journal.All (2 < ·) := by
  intro t t'
  have hready : (gapped.remember 1).Ready :=
    ⟨ready_gapped.exposed, ready_gapped.particle, ready_gapped.star, ready_gapped.transform,
      ready_gapped.live_of_contains⟩
  have hroom : (gapped.remember 1).HasRoom := by decide +kernel
  have hstart : (gapped.remember 1).world.journal.All (· ≤ 0) := by decide +kernel
  obtain ⟨htick, -, hall, -, hkept, hsucceeds⟩ := remembers_window hready.exposed.pool_wellFormed
    hstart [⟨0x3ff0000000000000⟩, ⟨0x7ff8000000000000⟩] ⟨0x3fd0000000000000⟩
  have htick : t'.tick = 3 := htick
  obtain ⟨-, hrecent, -⟩ := hkept (hsucceeds hready hroom)
  have hlong : (gapped.remember 1).rules.historyTicks ≤ t'.tick := htick ▸ by decide
  have hlast : t'.world.journal.All (t'.tick - 1 < ·) := hrecent hlong
  have hall : t'.world.journal.All (· ≤ t'.tick) := hall
  rw [htick] at hall hlast
  exact ⟨hstart, htick, hall, hlast⟩

end Simulation
end EntityWorld
