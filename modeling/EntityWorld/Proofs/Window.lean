/-
# The window of the last ticks

A simulation keeps the stamps of its last ticks, as many as its rules say. Who
has the world as it was after one of these ticks can be told all that came after
it: what was written is in the delta, what was removed or destroyed has a stamp,
and everything else is as it was (`Simulation.lossless_afterTicks`).

From that tick on everything that differs has a stamp after it
(`Simulation.follows_afterTicks`): a tick stamps what it changes, and what it
drops is not younger than that tick. Stamps of destruction that the world had
from the beginning may bear any version. One that is yet to come would speak of
a living entity if its name were given a second time, which takes a slot that
has gone through all of its generations (`World.Spent.not_isAlive_of_le`). So where
handles were kept different, and the ticks are fewer than generations are left, there
is no such stamp (`Simulation.payload?_afterTicks_of_keepsNames`).

Key definition: `World.Dated`.
Key theorems: `Simulation.follows_advance`, `Simulation.dated_advance`,
`Simulation.follows_afterTicks`, `Simulation.follows_window`,
`Simulation.destroyedAt?_afterTicks`, `Simulation.payload?_afterTicks`,
`Simulation.lossless_afterTicks`.
-/
import EntityWorld.Proofs.Ageing
import EntityWorld.Proofs.Delta
import Mathlib.Tactic

namespace EntityWorld

/-! ### Stamps of destruction -/

section Destruction

variable {κ : Type} [Family κ] [DecidableEq κ] {op : Operation κ} {w w' : World κ}

/-- The operations of a tick stamp destructions at the version of the tick. -/
theorem Change.destroyedAt?_eq_or (h : Change op w w') (hop : op.Stirs) :
    w'.journal.now = w.journal.now ∧ ∀ e v, w'.journal.destroyedAt? e = some v →
      v = w.journal.now ∨ w.journal.destroyedAt? e = some v := by
  cases h with
  | @leave w e pool _ _ =>
    refine ⟨rfl, fun e' v hd => ?_⟩
    have hnew : (w.leave e pool).journal.destroyedAt? e' =
        if e' = e then some w.journal.now else w.journal.destroyedAt? e' :=
      Journal.destroyedAt?_recordDestruction
    rw [hnew] at hd
    split at hd
    · exact Or.inl (Option.some.inj hd).symm
    · exact Or.inr hd
  | discard => exact hop.elim
  | setVersion => exact hop.elim
  | prune => exact hop.elim
  | forget => exact hop.elim
  | _ => exact ⟨rfl, fun _ _ => Or.inr⟩

omit [DecidableEq κ] in
/-- Where generations have not started over, no name is given a second time. -/
theorem World.Spent.not_isAlive_of_le (hw : w.Spent)
    (hle : ∀ i, (w.pool.slotAt i).generation ≤ (w'.pool.slotAt i).generation) {e : Handle}
    (hd : (w.journal.destroyedAt? e).isSome) : ¬ w'.isAlive e := by
  intro ha
  have hlt := UInt32.lt_of_lt_of_le (hw e hd) (hle e.slot)
  rw [(SlotPool.isAlive_iff_slotAt.mp ha).2] at hlt
  exact UInt32.lt_irrefl _ hlt

end Destruction

variable {κ : Type} [Family κ]

/-- The stamp of a component bears a version: that of its last write or, if it is
not there, that of the end of its entity. -/
def World.Dated [DecidableEq κ] (w : World κ) (u : Nat) (k : κ) (e : Handle) : Prop :=
  if (w.get? k e).isSome then w.journal.updatedAt? e (tagOf k) = some u
  else w.journal.destroyedAt? e = some u

theorem World.dated_of_marked [DecidableEq κ] {w : World κ} {u : Nat} {k : κ} {e : Handle}
    (h : w.Marked (· == u) k e) : w.Dated u k e := by
  have heq : ∀ o : Option Nat, o.any (· == u) → o = some u := fun o ho => by
    cases o with
    | none => cases ho
    | some v => rw [eq_of_beq ho]
  unfold Marked at h
  unfold Dated
  split
  · next hg =>
    rw [if_pos hg] at h
    exact heq _ h
  · next hg =>
    rw [if_neg hg] at h
    exact heq _ h

variable [DecidableEq κ]

namespace Simulation

open World

variable {P : World (Stocked κ)} {p : Nat → Bool} {s : Simulation κ}

/-! ### One tick -/

theorem tick_after_advance (dt : Double) (s : Simulation κ) :
    (after (advance dt) s).tick = s.tick + 1 ∧ (after (advance dt) s).rules = s.rules := by
  obtain ⟨htick, hrules, -⟩ := exists_run_stir dt s
  have h := within_advance (J := fun _ => True) ⟨htick, hrules, trivial⟩ fun _ _ _ => trivial
  exact ⟨h.1, h.2.1⟩

theorem get?_advance (dt : Double) (s : Simulation κ) (k : Stocked κ) (e : Handle) :
    (after (advance dt) s).world.get? k e = (after (stir dt) s).world.get? k e := by
  obtain ⟨htick, hrules, -⟩ := exists_run_stir dt s
  exact (within_advance (J := fun w => w.get? k e = (after (stir dt) s).world.get? k e)
    ⟨htick, hrules, rfl⟩ fun _ _ h => h).2.2

/-- A tick stamps what it changes, and keeps the stamps that count if the history
reaches back to them. -/
theorem follows_advance (h : Follows P p (fun _ _ => False) s.world) (hp : p (s.tick + 1))
    (hkept : ∀ u, p u → s.tick + 1 < u + s.rules.historyTicks) (dt : Double) :
    Follows P p (fun _ _ => False) (after (advance dt) s).world := by
  obtain ⟨htick, hrules, -⟩ := exists_run_stir dt s
  have hstir := (settled_stir h hp dt).1
  refine (within_advance ⟨htick, hrules, hstir⟩ fun hlong w hw => hw.prune fun u hu => ?_).2.2
  have hlt := hkept u hu
  omega

/-- **What a tick changes bears its number.** It does so in the end as well, if
the history is to go back by one tick at least. -/
theorem dated_advance (hw : s.world.WellFormed) (dt : Double) {k : Stocked κ} {e : Handle}
    (hne : (after (advance dt) s).world.get? k e ≠ s.world.get? k e) :
    (after (stir dt) s).world.Dated (s.tick + 1) k e ∧
      (0 < s.rules.historyTicks → (after (advance dt) s).world.Dated (s.tick + 1) k e) := by
  have hstart : Follows s.world (· == s.tick + 1) (fun _ _ => False) s.world := .refl hw
  have hp : (s.tick + 1 == s.tick + 1) = true := beq_self_eq_true _
  have hdated : ∀ w, Follows s.world (· == s.tick + 1) (fun _ _ => False) w →
      w.get? k e ≠ s.world.get? k e → w.Dated (s.tick + 1) k e := by
    intro w h hne
    rcases h.accounted k e with hpend | hm | hkept
    · exact hpend.elim
    · exact dated_of_marked hm
    · exact (hne hkept.get?_eq).elim
  constructor
  · refine hdated _ (settled_stir hstart hp dt).1 ?_
    rw [← get?_advance]
    exact hne
  · intro hhistory
    refine hdated _ (follows_advance hstart hp (fun u hu => ?_) dt) hne
    have heq := eq_of_beq hu
    omega

/-! ### Many ticks -/

@[simp] theorem afterTicks_nil (s : Simulation κ) : s.afterTicks [] = s := rfl

@[simp] theorem afterTicks_cons (s : Simulation κ) (dt : Double) (dts : List Double) :
    s.afterTicks (dt :: dts) = (after (advance dt) s).afterTicks dts := rfl

theorem afterTicks_append (s : Simulation κ) (dts dts' : List Double) :
    s.afterTicks (dts ++ dts') = (s.afterTicks dts).afterTicks dts' := List.foldl_append

theorem tick_afterTicks (s : Simulation κ) (dts : List Double) :
    (s.afterTicks dts).tick = s.tick + dts.length ∧ (s.afterTicks dts).rules = s.rules := by
  induction dts generalizing s with
  | nil => exact ⟨rfl, rfl⟩
  | cons dt dts ih =>
    obtain ⟨htick, hrules⟩ := tick_after_advance dt s
    obtain ⟨htick', hrules'⟩ := ih (after (advance dt) s)
    rw [afterTicks_cons, htick', hrules', htick, hrules, List.length_cons]
    exact ⟨by omega, rfl⟩

/-- What has changed since has a stamp that counts, as long as the history
reaches back to these. -/
theorem follows_afterTicks {dts : List Double} {a : Nat}
    (h : Follows P (a < ·) (fun _ _ => False) s.world) (ha : a ≤ s.tick)
    (hwindow : (s.afterTicks dts).tick ≤ a + s.rules.historyTicks) :
    Follows P (a < ·) (fun _ _ => False) (s.afterTicks dts).world := by
  induction dts generalizing s with
  | nil => exact h
  | cons dt dts ih =>
    obtain ⟨htick, hrules⟩ := tick_after_advance dt s
    have hend := (tick_afterTicks s (dt :: dts)).1
    rw [List.length_cons] at hend
    have hnext := follows_advance h (decide_eq_true (by omega : a < s.tick + 1))
      (fun u hu => by have hlt := of_decide_eq_true hu; omega) dt
    refine ih (s := after (advance dt) s) hnext (by omega) ?_
    rw [hrules]
    exact hwindow

/-- A tick stamps destructions with its number. -/
theorem destroyedAt?_advance (hw : s.world.WellFormed) (dt : Double) :
    (after (advance dt) s).world.WellFormed ∧ ∀ e v,
      (after (advance dt) s).world.journal.destroyedAt? e = some v →
        v = s.tick + 1 ∨ s.world.journal.destroyedAt? e = some v := by
  let J (w : World (Stocked κ)) : Prop := (w.WellFormed ∧ w.journal.now = s.tick + 1) ∧
    ∀ e v, w.journal.destroyedAt? e = some v →
      v = s.tick + 1 ∨ s.world.journal.destroyedAt? e = some v
  have hJ : ∀ op : Operation (Stocked κ), op.Stirs → ∀ w, J w → J (op.apply w) := by
    intro op hop w hw
    refine Change.keeps_row (I := J) (fun hc hw => ?_) (Change.row_apply op hw.1.1.pool) hw
    obtain ⟨⟨hwf, hnow⟩, hstamps⟩ := hw
    obtain ⟨hnow', hstamps'⟩ := hc.destroyedAt?_eq_or hop
    refine ⟨⟨hc.wellFormed hwf, hnow'.trans hnow⟩, fun e v hd => ?_⟩
    rcases hstamps' e v hd with heq | hold
    · exact Or.inl (heq.trans hnow)
    · exact hstamps e v hold
  have hbegun : J (s.world.setVersion (s.tick + 1)) :=
    ⟨⟨Change.wellFormed (.setVersion _) hw, rfl⟩, fun _ _ => Or.inr⟩
  have hend := (within_advance (within_stir_of_closed hJ hbegun dt) fun _ w hw => ?_).2.2
  · exact ⟨hend.1.1, hend.2⟩
  · refine ⟨⟨Change.wellFormed (.prune _) hw.1.1, hw.1.2⟩, fun e v hd => hw.2 e v ?_⟩
    change (w.journal.prune _).destroyedAt? e = some v at hd
    rw [Journal.destroyedAt?_prune] at hd
    exact (Option.filter_eq_some_iff.mp hd).1

/-- A stamp of destruction is from one of the ticks, or was there before them. -/
theorem destroyedAt?_afterTicks (hw : s.world.WellFormed) (dts : List Double) :
    (s.afterTicks dts).world.WellFormed ∧ ∀ e v,
      (s.afterTicks dts).world.journal.destroyedAt? e = some v →
        v ≤ s.tick + dts.length ∨ s.world.journal.destroyedAt? e = some v := by
  induction dts generalizing s with
  | nil => exact ⟨hw, fun _ _ => Or.inr⟩
  | cons dt dts ih =>
    obtain ⟨hw', hfirst⟩ := destroyedAt?_advance hw dt
    obtain ⟨hend, hrest⟩ := ih (s := after (advance dt) s) hw'
    refine ⟨hend, fun e v hd => ?_⟩
    have htick := (tick_after_advance dt s).1
    rw [List.length_cons]
    rcases hrest e v hd with hle | hold
    · exact Or.inl (by omega)
    · rcases hfirst e v hold with heq | hold
      · exact Or.inl (by omega)
      · exact Or.inr hold

/-- Who has the world `P` learns from the stamps after `a` all that came after it. -/
theorem payload?_eq_of_follows {w : World (Stocked κ)} {a : Nat}
    (h : Follows P (a < ·) (fun _ _ => False) w) (hP : P.TagsDistinct) {e : Handle} {t : TypeTag}
    (hnames : (P.journal.destroyedAt? e).any (a < ·) → ¬ w.isAlive e) :
    w.payload? e t = w.replica? P a e t := by
  have hw := h.wellFormed
  -- a component that is not written since is gone with its entity, or it is as it was
  have hunwritten : ¬ w.journal.writtenSince a e t → ∀ k, tagOf k = t →
      (w.get? k e = none ∧ (w.journal.destroyedAt? e).any (a < ·)) ∨ Kept P w (a < ·) k e := by
    intro hwritten k hk
    rcases h.accounted k e with hpend | hm | hkept
    · exact hpend.elim
    · unfold Marked at hm
      split at hm
      · exact (hwritten (hk ▸ hm)).elim
      · next hg => exact Or.inl ⟨Option.not_isSome_iff_eq_none.mp hg, hm⟩
    · exact Or.inr hkept
  refine hw.payload?_eq_replica? (fun hwritten hd => ?_) fun htold => ?_
  · by_contra hsome
    rw [payload?_eq_map hw.tagsDistinct] at hsome
    cases hs : w.synced? t with
    | none => exact hsome (by rw [hs, Option.bind_none])
    | some s =>
      rw [hs, Option.bind_some, Option.map_eq_none_iff] at hsome
      rcases hunwritten hwritten s.1 (isRegistered_of_synced? hs).2 with hgone | hkept
      · exact hsome hgone.1
      · exact hsome (get?_of_not_isAlive (hnames (hkept.destroyed hd)))
  · refine payload?_eq_of_get? hP hw.tagsDistinct h.forms_eq fun k hk => ?_
    rcases hunwritten (fun hwritten => htold (Or.inl hwritten)) k hk with hgone | hkept
    · exact (htold (Or.inr (Bool.or_eq_true_iff.mpr (Or.inl hgone.2)))).elim
    · exact hkept.get?_eq

/-- From a tick in the window on, the history reaches back to it. -/
theorem follows_window (hw : s.world.WellFormed) {dts : List Double} {a : Nat}
    (hfirst : s.tick ≤ a) (hlast : a ≤ (s.afterTicks dts).tick)
    (hwindow : (s.afterTicks dts).tick ≤ a + s.rules.historyTicks) :
    Follows (s.afterTicks (dts.take (a - s.tick))).world (a < ·) (fun _ _ => False)
      (s.afterTicks dts).world := by
  have htick := (tick_afterTicks s dts).1
  have hsplit : s.afterTicks dts =
      (s.afterTicks (dts.take (a - s.tick))).afterTicks (dts.drop (a - s.tick)) := by
    rw [← afterTicks_append, List.take_append_drop]
  obtain ⟨hmid, hrules⟩ := tick_afterTicks s (dts.take (a - s.tick))
  rw [List.length_take] at hmid
  rw [hsplit] at hwindow ⊢
  refine follows_afterTicks (.refl (destroyedAt?_afterTicks hw _).1) (by omega) ?_
  rw [hrules]
  exact hwindow

/-- No tick gives a stamp of destruction that is after it. -/
theorem any_destroyedAt?_of_afterTicks (hw : s.world.WellFormed) {dts : List Double} {a : Nat}
    (hle : s.tick + dts.length ≤ a) {e : Handle}
    (hd : ((s.afterTicks dts).world.journal.destroyedAt? e).any (a < ·)) :
    (s.world.journal.destroyedAt? e).any (a < ·) := by
  obtain ⟨v, hv⟩ := Option.isSome_iff_exists.mp (Option.isSome_of_any hd)
  rcases (destroyedAt?_afterTicks hw dts).2 e v hv with hv' | hold
  · have hlt : a < v := by simpa [hv] using hd
    omega
  · rw [hold, ← hv]
    exact hd

/-- Who has the world as it was after a tick in the window of the history learns from
the stamps after this tick all that came after it, but for names that were given a second
time. -/
theorem payload?_afterTicks (hw : s.world.WellFormed) {dts : List Double} {a : Nat}
    (hfirst : s.tick ≤ a) (hlast : a ≤ (s.afterTicks dts).tick)
    (hwindow : (s.afterTicks dts).tick ≤ a + s.rules.historyTicks) {e : Handle} {t : TypeTag}
    (hnames : (s.world.journal.destroyedAt? e).any (a < ·) →
      ¬ (s.afterTicks dts).world.isAlive e) :
    (s.afterTicks dts).world.payload? e t =
      (s.afterTicks dts).world.replica? (s.afterTicks (dts.take (a - s.tick))).world a e t := by
  have hmid := (destroyedAt?_afterTicks hw (dts.take (a - s.tick))).1
  have hlength := List.length_take_le (a - s.tick) dts
  exact payload?_eq_of_follows (follows_window hw hfirst hlast hwindow) hmid.tagsDistinct
    fun hd => hnames (any_destroyedAt?_of_afterTicks hw (by omega) hd)

/-- What one of the ticks changes has got the stamp of that tick. -/
theorem dated_afterTicks (hw : s.world.WellFormed) {dts : List Double} {n : Nat}
    (hn : n < dts.length) {k : Stocked κ} {e : Handle}
    (hne : (s.afterTicks (dts.take (n + 1))).world.get? k e ≠
      (s.afterTicks (dts.take n)).world.get? k e) :
    (after (stir dts[n]) (s.afterTicks (dts.take n))).world.Dated (s.tick + n + 1) k e ∧
      (0 < s.rules.historyTicks →
        (s.afterTicks (dts.take (n + 1))).world.Dated (s.tick + n + 1) k e) := by
  have hstep : s.afterTicks (dts.take (n + 1)) =
      after (advance dts[n]) (s.afterTicks (dts.take n)) := by
    rw [List.take_succ_eq_append_getElem hn, afterTicks_append]
    rfl
  obtain ⟨htick, hrules⟩ := tick_afterTicks s (dts.take n)
  rw [List.length_take, Nat.min_eq_left hn.le] at htick
  rw [hstep] at hne ⊢
  have hdated := dated_advance (destroyedAt?_afterTicks hw (dts.take n)).1 dts[n] hne
  rw [htick, hrules] at hdated
  exact hdated

/-- Where no name was given a second time none is in these ticks, unless they let the
generations of a slot start over. -/
theorem payload?_afterTicks_of_keepsNames (hs : ReachableBy Operation.KeepsNames s.world)
    {dts : List Double} {a : Nat} (hfirst : s.tick ≤ a) (hlast : a ≤ (s.afterTicks dts).tick)
    (hwindow : (s.afterTicks dts).tick ≤ a + s.rules.historyTicks)
    (hgenerations : ∀ i, (s.world.pool.slotAt i).generation ≤
      ((s.afterTicks dts).world.pool.slotAt i).generation) (e : Handle) (t : TypeTag) :
    (s.afterTicks dts).world.payload? e t =
      (s.afterTicks dts).world.replica? (s.afterTicks (dts.take (a - s.tick))).world a e t :=
  payload?_afterTicks hs.wellFormed hfirst hlast hwindow fun hd =>
    hs.spent.not_isAlive_of_le hgenerations (Option.isSome_of_any hd)

/-- **The window of the last ticks is lossless.** After any ticks, take a tick
`a` in the window of the history. What there is now is what is in the delta for
`a` if it was written since; nothing if it was removed since, or its entity
destroyed; and what there was after tick `a` otherwise. What a tick changed has
got the stamp of that tick.

No name of an entity that was destroyed before these ticks, at a version that is
after `a` nevertheless, may be in use again: a slot gives a name a second time
when it has gone through all generations (`payload?_afterTicks_of_keepsNames`). -/
theorem lossless_afterTicks (hs : s.world.Reachable) (dts : List Double) {a : Nat}
    (hfirst : s.tick ≤ a) (hlast : a ≤ (s.afterTicks dts).tick)
    (hwindow : (s.afterTicks dts).tick ≤ a + s.rules.historyTicks)
    (hnames : ∀ e, (s.world.journal.destroyedAt? e).any (a < ·) →
      ¬ (s.afterTicks dts).world.isAlive e) :
    (∀ e t, (s.afterTicks dts).world.payload? e t =
      if (s.afterTicks dts).world.journal.writtenSince a e t then
        ((s.afterTicks dts).deltaFor a).dataAt? e.index t
      else if (s.afterTicks dts).world.journal.goneSince a e t then none
      else (s.afterTicks (dts.take (a - s.tick))).world.payload? e t) ∧
    ∀ n (hn : n < dts.length) k e,
      (s.afterTicks (dts.take (n + 1))).world.get? k e ≠
        (s.afterTicks (dts.take n)).world.get? k e →
      (after (stir dts[n]) (s.afterTicks (dts.take n))).world.Dated (s.tick + n + 1) k e ∧
        (0 < s.rules.historyTicks →
          (s.afterTicks (dts.take (n + 1))).world.Dated (s.tick + n + 1) k e) :=
  ⟨fun e _ => payload?_afterTicks hs.wellFormed hfirst hlast hwindow (hnames e),
    fun _ hn _ _ hne => dated_afterTicks hs.wellFormed hn hne⟩

/-- A scene with a star and the slot of an entity that is gone. It keeps the stamps
of two ticks. -/
def driftingStar : Simulation Empty where
  rules := { particles := 0, historyTicks := 2 }
  world := World.run {} [.registerSynced .particle Particle.codec,
    .registerSynced .star Star.codec, .registerSynced .transform Transform.codec, .spawn,
    .add .star ⟨0, 0⟩ (Star.mk 1), .add .transform ⟨0, 0⟩ (Transform.ofPosition ⟨0, 0, 0⟩),
    .spawn, .setVersion 5, .kill ⟨1, 0⟩]

/-- The scene after three seconds, at one tick a second. -/
def drifted : Simulation Empty := driftingStar.afterTicks (List.replicate 3 ⟨0x3ff0000000000000⟩)

/-- Who has the scene as it was after its first tick learns where the star is from
the delta, keeps the star itself, and finds nothing where nobody lives. -/
theorem lossless_drifted :
    drifted.world.payload? ⟨0, 0⟩ (tagOf (.transform : Stocked Empty)) =
      (drifted.deltaFor 1).dataAt? 0 (tagOf (.transform : Stocked Empty)) ∧
    drifted.world.payload? ⟨0, 0⟩ (tagOf (.star : Stocked Empty)) =
      (driftingStar.afterTicks [⟨0x3ff0000000000000⟩]).world.payload? ⟨0, 0⟩
        (tagOf (.star : Stocked Empty)) ∧
    drifted.world.payload? ⟨1, 0⟩ (tagOf (.transform : Stocked Empty)) = none := by
  have hs : driftingStar.world.Reachable := ReachableBy.run (.start (s := {}) rfl)
    ⟨trivial, trivial, trivial, trivial, trivial, trivial, trivial, trivial, trivial, trivial⟩
  have htick : (driftingStar.afterTicks (List.replicate 3 ⟨0x3ff0000000000000⟩)).tick = 3 :=
    (tick_afterTicks _ _).1
  have hgone : driftingStar.world.journal.destroyed.toList = [(⟨1, 0⟩, 5)] := by decide +kernel
  have hnames : ∀ e, (driftingStar.world.journal.destroyedAt? e).any (1 < ·) →
      ¬ drifted.world.isAlive e := by
    intro e hd
    obtain ⟨v, hv⟩ := Option.isSome_iff_exists.mp (Option.isSome_of_any hd)
    have hmem := Std.ExtTreeMap.mem_toList_iff_getElem?_eq_some.mpr hv
    rw [hgone, List.mem_singleton] at hmem
    cases hmem
    decide +kernel
  have hlossless := (lossless_afterTicks hs _ (a := 1) (Nat.zero_le 1)
    (by rw [htick]; decide) (by rw [htick]; decide) hnames).1
  refine ⟨(hlossless _ _).trans (if_pos ?_), (hlossless _ _).trans ?_, (hlossless _ _).trans ?_⟩
  · decide +kernel
  · exact (if_neg (by decide +kernel)).trans (if_neg (by decide +kernel))
  · exact (if_neg (by decide +kernel)).trans (if_pos (by decide +kernel))

end Simulation
end EntityWorld
