/-
# A shorter history only forgets

Two simulations of one world that keep histories of different lengths do the same
tick by tick. No tick asks the journal for anything, so all that can tell them
apart is in their journals, and there it is the stamps that the one has dropped and
the other has not. Of the stamps that both still have to keep, those past a
horizon, they keep the same (`Journal.Shares`): a record puts the same stamp in both,
or takes the stamp of the same component out of both, and pruning does not reach past
the horizon.

After a tick that got to its end the shorter journal is the longer one pruned at its
horizon. Before the first tick it is not, as nothing was pruned yet
(`Simulation.not_prune_unticked`).

Key definitions: `Journal.Shares`, `World.Shares`, `Simulation.Shares`,
`Simulation.remember`.
Key theorems: `Journal.Shares.record`, `Journal.Shares.prune`,
`Simulation.Shares.stir`, `Simulation.Shares.advance`,
`Simulation.afterTicks_remember`.
-/
import EntityWorld.Proofs.Turnover
import EntityWorld.Proofs.Twins
import EntityWorld.Proofs.Unread
import Mathlib.Tactic

namespace EntityWorld

/-! ### Journals -/

theorem filter_filter_of_imp {α : Type} {p q : α → Bool} (h : ∀ a, q a → p a) (o : Option α) :
    (o.filter p).filter q = o.filter q := by
  have hand : (fun a => p a && q a) = q := by
    funext a
    cases hq : q a with
    | true => rw [h a hq, Bool.and_true]
    | false => rw [Bool.and_false]
  rw [Option.filter_filter, hand]

namespace Journal

/-- Of the stamps that `p` holds of, the journals keep the same. -/
structure Shares (p : Nat → Bool) (j j' : Journal) : Prop where
  now_eq : j.now = j'.now
  created : ∀ e, (j.createdAt? e).filter p = (j'.createdAt? e).filter p
  destroyed : ∀ e, (j.destroyedAt? e).filter p = (j'.destroyedAt? e).filter p
  updated : ∀ e t, (j.updatedAt? e t).filter p = (j'.updatedAt? e t).filter p
  removed : ∀ e t, (j.removedAt? e t).filter p = (j'.removedAt? e t).filter p

namespace Shares

variable {p q : Nat → Bool} {j j' : Journal}

theorem refl (p : Nat → Bool) (j : Journal) : Shares p j j :=
  ⟨rfl, fun _ => rfl, fun _ => rfl, fun _ _ => rfl, fun _ _ => rfl⟩

theorem symm (h : Shares p j j') : Shares p j' j where
  now_eq := h.now_eq.symm
  created e := (h.created e).symm
  destroyed e := (h.destroyed e).symm
  updated e t := (h.updated e t).symm
  removed e t := (h.removed e t).symm

theorem trans {j'' : Journal} (h : Shares p j j') (h' : Shares p j' j'') : Shares p j j'' where
  now_eq := h.now_eq.trans h'.now_eq
  created e := (h.created e).trans (h'.created e)
  destroyed e := (h.destroyed e).trans (h'.destroyed e)
  updated e t := (h.updated e t).trans (h'.updated e t)
  removed e t := (h.removed e t).trans (h'.removed e t)

theorem filter_stamp? (h : Shares p j j') (x : Key) :
    (j.stamp? x).filter p = (j'.stamp? x).filter p := by
  cases x with
  | created e => exact h.created e
  | destroyed e => exact h.destroyed e
  | updated e t => exact h.updated e t
  | removed e t => exact h.removed e t

theorem of_filter_stamp? (hnow : j.now = j'.now)
    (h : ∀ x, (j.stamp? x).filter p = (j'.stamp? x).filter p) : Shares p j j' :=
  ⟨hnow, fun e => h (.created e), fun e => h (.destroyed e), fun e t => h (.updated e t),
    fun e t => h (.removed e t)⟩

theorem mono (h : Shares p j j') (hqp : ∀ u, q u → p u) : Shares q j j' :=
  of_filter_stamp? h.now_eq fun x => by
    rw [← filter_filter_of_imp hqp, h.filter_stamp?, filter_filter_of_imp hqp]

/-- Journals that share all stamps are the same. -/
theorem eq_of_forall (h : Shares p j j') (hp : ∀ u, p u) : j = j' := by
  have hkeep : ∀ o : Option Nat, o.filter p = o := fun o => by
    cases o with
    | none => rfl
    | some u => rw [Option.filter_some, if_pos (hp u)]
  refine eq_of_stamp? h.now_eq fun x => ?_
  rw [← hkeep (j.stamp? x), h.filter_stamp?, hkeep]

theorem setNow (h : Shares p j j') (v : Nat) : Shares p { j with now := v } { j' with now := v } :=
  ⟨rfl, h.created, h.destroyed, h.updated, h.removed⟩

/-- A record does the same to what is shared. -/
theorem record (h : Shares p j j') (r : Record) : Shares p (j.record r) (j'.record r) := by
  refine of_filter_stamp? ?_ fun x => ?_
  · rw [now_record, now_record, h.now_eq]
  · rw [stamp?_record, stamp?_record, h.now_eq]
    split
    · rfl
    · split
      · rfl
      · exact h.filter_stamp? x

theorem kept (p : Nat → Bool) : Journal.Kept (Shares p) := fun _ _ h r => h.record r

/-- Pruning drops no stamp that is shared if it stops before them. -/
theorem prune (h : Shares p j j') {v : Nat} (hv : ∀ u, p u → v < u) : Shares p (j.prune v) j' :=
  of_filter_stamp? h.now_eq fun x => by
    rw [stamp?_prune, filter_filter_of_imp fun u hu => decide_eq_true (hv u hu), h.filter_stamp?]

/-- Pruned before the stamps that they share, the journals are the same. -/
theorem prune_eq {v : Nat} (h : Shares (v < ·) j j') : j.prune v = j'.prune v :=
  eq_of_stamp? h.now_eq fun x => by rw [stamp?_prune, stamp?_prune, h.filter_stamp?]

end Shares

/-- The stamps that a history of length `h` still has to keep at version `t`. -/
def window (h t : Nat) (u : Nat) : Bool := t < u + h

/-- The journal without the stamps that a history of length `h` no longer keeps. -/
def recent (h t : Nat) (j : Journal) : Journal := if h ≤ t then j.prune (t - h) else j

section Recent

variable {h h' t : Nat} {j j' : Journal}

theorem window_of_succ {u : Nat} (hu : window h (t + 1) u) : window h t u := by
  simp only [window, decide_eq_true_eq] at hu ⊢
  omega

theorem window_of_le (hle : h ≤ h') {u : Nat} (hu : window h t u) : window h' t u := by
  simp only [window, decide_eq_true_eq] at hu ⊢
  omega

theorem shares_recent (h t : Nat) (j : Journal) : Shares (window h t) (j.recent h t) j := by
  unfold recent
  split
  · refine (Shares.refl _ j).prune fun u hu => ?_
    simp only [window, decide_eq_true_eq] at hu
    omega
  · exact .refl _ j

/-- Journals that share the stamps of a history are the same but for what it drops. -/
theorem Shares.recent_eq (hj : Shares (window h t) j j') : j.recent h t = j'.recent h t := by
  unfold recent
  split
  · next hlong =>
    refine (hj.mono fun u hu => ?_).prune_eq
    simp only [window, decide_eq_true_eq] at hu ⊢
    omega
  · next hshort =>
    refine hj.eq_of_forall fun u => ?_
    simp only [window, decide_eq_true_eq]
    omega

/-- What histories of two lengths keep is the same in the shorter one. -/
theorem Shares.recent (hj : Shares (window h t) j j') (hle : h ≤ h') :
    Shares (window h t) (j.recent h t) (j'.recent h' t) :=
  ((shares_recent h t j).trans hj).trans
    ((shares_recent h' t j').symm.mono fun _ => window_of_le hle)

/-- The shorter history is what it keeps of the longer one. -/
theorem Shares.recent_eq_recent (hj : Shares (window h t) j j') (hle : h ≤ h') :
    j.recent h t = (j'.recent h' t).recent h t := by
  rw [← (hj.recent hle).recent_eq, (shares_recent h t j).recent_eq]

end Recent

end Journal

/-! ### Worlds -/

section Worlds

variable {κ : Type} [Family κ]

/-- The worlds differ in their journals only, and these share the stamps that `p` holds of. -/
inductive World.Shares (p : Nat → Bool) (w : World κ) : World κ → Prop
  | mk {j : Journal} : w.journal.Shares p j → Shares p w { w with journal := j }

namespace World.Shares

variable {p q : Nat → Bool} {w w' : World κ}

theorem journal (h : w.Shares p w') : w.journal.Shares p w'.journal := by
  cases h with
  | mk hj => exact hj

theorem eq_with (h : w.Shares p w') : w' = { w with journal := w'.journal } := by
  cases h with
  | mk hj => rfl

theorem mono (h : w.Shares p w') (hqp : ∀ u, q u → p u) : w.Shares q w' := by
  cases h with
  | mk hj => exact .mk (hj.mono hqp)

/-- A capture of the changes since a version asks for the later stamps. -/
theorem captureSince_eq (h : w.Shares p w') {v : Nat} (hv : ∀ u, v < u → p u) :
    w.captureSince v = w'.captureSince v := by
  cases h with
  | @mk j hj =>
    have hand : (fun u => p u && decide (v < u)) = fun u => decide (v < u) := by
      funext u
      by_cases hu : v < u
      · rw [hv u hu, Bool.true_and]
      · rw [decide_eq_false hu, Bool.and_false]
    have hlater : ∀ o : Option Nat, o.any (v < ·) = (o.filter p).any (v < ·) := fun o => by
      rw [Option.any_filter, hand]
    have hkeep : (fun e t => (w.journal.updatedAt? e t).any (v < ·)) =
        fun e t => (j.updatedAt? e t).any (v < ·) := by
      funext e t
      rw [hlater, hj.updated, ← hlater]
    unfold captureSince
    rw [hkeep]
    rfl

/-! Operations do not read the journal and their records keep what is shared. -/

theorem eq_upToJournal (p : Nat → Bool) :
    (Shares p : World κ → World κ → Prop) = UpToJournal (Journal.Shares p) := by
  funext w w'
  refine propext ⟨fun h => ?_, fun h => ?_⟩
  · cases h with
    | mk hj => exact .mk hj
  · cases h with
    | mk hj => exact .mk hj

theorem spawn (h : w.Shares p w') : Agree (Shares p) Eq (World.spawn w) (World.spawn w') := by
  rw [eq_upToJournal] at h ⊢
  exact h.spawn (Journal.Shares.kept p)

theorem kill (h : w.Shares p w') (e : Handle) :
    Agree (Shares p) Eq (World.kill e w) (World.kill e w') := by
  rw [eq_upToJournal] at h ⊢
  exact h.kill (Journal.Shares.kept p) e

variable [DecidableEq κ] (k : κ) (e : Handle)

theorem column (h : w.Shares p w') : Agree (Shares p) Eq (World.column k w) (World.column k w') := by
  rw [eq_upToJournal] at h ⊢
  exact h.column k

theorem modifyColumn (h : w.Shares p w') (f : Column (Value k) → Column (Value k)) :
    Agree (Shares p) Eq (World.modifyColumn k f w) (World.modifyColumn k f w') := by
  rw [eq_upToJournal] at h ⊢
  exact h.modifyColumn k f

theorem add (h : w.Shares p w') (v : Value k) :
    Agree (Shares p) Eq (World.add k e v w) (World.add k e v w') := by
  rw [eq_upToJournal] at h ⊢
  exact h.add (Journal.Shares.kept p) k e v

theorem emplace (h : w.Shares p w') (make : Unit → Option (Value k)) :
    Agree (Shares p) Eq (World.emplace k e make w) (World.emplace k e make w') := by
  rw [eq_upToJournal] at h ⊢
  exact h.emplace (Journal.Shares.kept p) k e make

theorem markDirty (h : w.Shares p w') :
    Agree (Shares p) Eq (World.markDirty k e w) (World.markDirty k e w') := by
  rw [eq_upToJournal] at h ⊢
  exact h.markDirty (Journal.Shares.kept p) k e

theorem edit (h : w.Shares p w') (f : Value k → Value k) :
    Agree (Shares p) Eq (World.edit k e f w) (World.edit k e f w') := by
  rw [eq_upToJournal] at h ⊢
  exact h.edit k e f

end World.Shares
end Worlds

/-! ### Simulations -/

section Agree

variable {ε σ α : Type} {R : σ → σ → Prop} {C : ε → ε → Prop}

theorem Agree.ok_or_error {r r' : EStateM.Result ε σ α} (h : Agree R C r r') :
    (∃ a s t, r = .ok a s ∧ r' = .ok a t ∧ R s t) ∨
      ∃ c d s t, r = .error c s ∧ r' = .error d t ∧ C c d ∧ R s t := by
  cases h with
  | ok a hst => exact Or.inl ⟨a, _, _, rfl, rfl, hst⟩
  | error hc hst => exact Or.inr ⟨_, _, _, _, rfl, rfl, hc, hst⟩

end Agree

variable {κ : Type} [Family κ]

namespace Simulation

open Journal

/-- The simulations differ in the length of the history that they keep and in their
journals only, and these share the stamps that `p` holds of. -/
inductive Shares (p : Nat → Bool) (s : Simulation κ) : Simulation κ → Prop
  | mk {n : Nat} {w : World (Stocked κ)} : s.world.Shares p w →
      Shares p s { s with rules := { s.rules with historyTicks := n }, world := w }

/-- The simulation with a history of some length. -/
def remember (s : Simulation κ) (h : Nat) : Simulation κ :=
  { s with rules := { s.rules with historyTicks := h } }

namespace Shares

variable {p q : Nat → Bool} {s t : Simulation κ}

theorem world (h : s.Shares p t) : s.world.Shares p t.world := by
  cases h with
  | mk hw => exact hw

theorem tick_eq (h : s.Shares p t) : s.tick = t.tick := by
  cases h with
  | mk hw => rfl

theorem expired_eq (h : s.Shares p t) : s.expired = t.expired := by
  cases h with
  | mk hw => rfl

theorem mono (h : s.Shares p t) (hqp : ∀ u, q u → p u) : s.Shares q t := by
  cases h with
  | mk hw => exact .mk (hw.mono hqp)

theorem inWorld {α : Type} {act : World.Action (Stocked κ) α} (h : s.Shares p t)
    (hact : Agree (World.Shares p) Eq (act s.world) (act t.world)) :
    Agree (Shares p) Eq (Simulation.inWorld act s) (Simulation.inWorld act t) := by
  cases h with
  | @mk n w hw =>
    unfold Simulation.inWorld
    change Agree _ _ (act s.world) (act w) at hact
    generalize act s.world = r, act w = r' at hact ⊢
    cases hact with
    | ok a hst => exact .ok a (.mk (s := { s with world := _ }) hst)
    | error hc hst => exact .error hc (.mk (s := { s with world := _ }) hst)

variable [DecidableEq κ]

/-! ### The parts of a tick -/

theorem touchParticle {w w' : World (Stocked κ)} (h : w.Shares p w') (i : Nat) :
    Agree (World.Shares p) Eq (Simulation.touchParticle i w) (Simulation.touchParticle i w') := by
  have hmark := h.markDirty (.particle : Stocked κ) (w.pool.current (.ofNat i))
  have hpool : w'.pool = w.pool := by
    cases h with
    | mk hj => rfl
  unfold Simulation.touchParticle
  rw [hpool]
  generalize World.markDirty (.particle : Stocked κ) (w.pool.current (.ofNat i)) w = r,
    World.markDirty (.particle : Stocked κ) (w.pool.current (.ofNat i)) w' = r' at hmark ⊢
  cases hmark with
  | ok _ hst => exact .ok () hst
  | error hc hst => exact .error hc hst

omit [DecidableEq κ] in
theorem killAt {w w' : World (Stocked κ)} (h : w.Shares p w') (i : Nat) :
    Agree (World.Shares p) Eq (Simulation.killAt i w) (Simulation.killAt i w') := by
  have hkill := h.kill (w.pool.current (.ofNat i))
  cases h with
  | mk hj => exact hkill

theorem ageParticles (h : s.Shares p t) (dt : Single) :
    Agree (Shares p) Eq (Simulation.ageParticles dt s) (Simulation.ageParticles dt t) := by
  refine (h.inWorld (h.world.modifyColumn _ _)).bind fun _ {s t} h => ?_
  refine (h.inWorld (h.world.column _)).bind fun aged {s t} h => ?_
  refine (Agree.forM (fun _ {s t} h => h.inWorld (touchParticle h.world _)) _ h).bind
    fun _ {s t} h => ?_
  refine (Agree.forM (fun _ {s t} h => h.inWorld (killAt h.world _)) _ h).bind fun _ {s t} h => ?_
  cases h with
  | @mk n w hw => exact .ok _ (.mk (s := { s with expired := _ }) hw)

theorem spawnParticle {w w' : World (Stocked κ)} (h : w.Shares p w') (rules : Rules) (n : Nat) :
    Agree (World.Shares p) Eq (Simulation.spawnParticle rules n w)
      (Simulation.spawnParticle rules n w') := by
  refine h.spawn.bind fun e {w w'} h => ?_
  refine (h.emplace _ e _).bind fun _ {w w'} h => ?_
  exact h.add _ e _

theorem refillParticles (h : s.Shares p t) :
    Agree (Shares p) Eq (Simulation.refillParticles s) (Simulation.refillParticles t) := by
  refine (h.inWorld (h.world.column _)).bind fun column {s t} h => ?_
  -- what new particles there are and how they come does not depend on the history
  have hforM : ∀ rules : Rules, Agree (Shares p) Eq
      (((List.range (rules.particles - column.count)).forM fun n =>
        Simulation.inWorld (Simulation.spawnParticle rules n)) s)
      (((List.range (rules.particles - column.count)).forM fun n =>
        Simulation.inWorld (Simulation.spawnParticle rules n)) t) := fun rules =>
    Agree.forM (fun n {s t} h => h.inWorld (spawnParticle h.world rules n)) _ h
  cases h with
  | mk hw => exact hforM s.rules

theorem scroll {w w' : World (Stocked κ)} (h : w.Shares p w') (width dt : Single) (i : Nat)
    (speed : Single) : Agree (World.Shares p) Eq (Simulation.scroll width dt i speed w)
      (Simulation.scroll width dt i speed w') := by
  obtain ⟨move, hscroll⟩ : ∃ move : Transform → Transform,
      ∀ u : World (Stocked κ), Simulation.scroll width dt i speed u =
        (World.edit (.transform : Stocked κ) (u.pool.current (.ofNat i)) move >>= fun old =>
          if old.isSome then
            World.markDirty (.transform : Stocked κ) (u.pool.current (.ofNat i)) >>= fun _ => pure ()
          else pure ()) u := ⟨_, fun _ => rfl⟩
  have hpool : w'.pool = w.pool := by
    cases h with
    | mk hj => rfl
  rw [hscroll, hscroll, hpool]
  refine (h.edit (.transform : Stocked κ) _ move).bind fun old {w w'} h => ?_
  split
  · exact (h.markDirty _ _).bind fun _ {w w'} h => .ok _ h
  · exact .ok _ h

theorem scrollStars (h : s.Shares p t) (dt : Single) :
    Agree (Shares p) Eq (Simulation.scrollStars dt s) (Simulation.scrollStars dt t) := by
  have hrest : Agree (Shares p) Eq
      ((Simulation.inWorld (World.column (.star : Stocked κ)) >>= fun column =>
        (column.present.map fun x => (x.1, Star.scrollSpeed x.2 s.rules.scrollSpeed)).forM fun x =>
          Simulation.inWorld (Simulation.scroll s.rules.width dt x.1 x.2)) s)
      ((Simulation.inWorld (World.column (.star : Stocked κ)) >>= fun column =>
        (column.present.map fun x => (x.1, Star.scrollSpeed x.2 s.rules.scrollSpeed)).forM fun x =>
          Simulation.inWorld (Simulation.scroll s.rules.width dt x.1 x.2)) t) := by
    refine (h.inWorld (h.world.column _)).bind fun column {s t} h => ?_
    exact Agree.forM (fun _ {s t} h => h.inWorld (scroll h.world _ _ _ _)) _ h
  cases h with
  | mk hw => exact hrest

/-- Up to the pruning a tick does the same in both simulations. -/
theorem stir (h : s.Shares p t) (dt : Double) :
    Agree (Shares p) Eq (Simulation.stir dt s) (Simulation.stir dt t) := by
  have hbegun : s.begun.Shares p t.begun := by
    cases h with
    | mk hw =>
      cases hw with
      | mk hj => exact .mk (s := s.begun) (.mk (w := s.begun.world) (hj.setNow (s.tick + 1)))
  refine (ageParticles hbegun _).bind fun _ {s t} h => ?_
  exact (refillParticles h).bind fun _ {s t} h => scrollStars h _

/-! ### Ticks -/

omit [DecidableEq κ] in
theorem pruneHistory_eq_recent (s : Simulation κ) : Simulation.pruneHistory s =
    .ok () { s with
      world.journal := s.world.journal.recent s.rules.historyTicks s.tick } := by
  rw [pruneHistory_eq]
  unfold Journal.recent
  split <;> rfl

omit [DecidableEq κ] in
/-- What the shorter history keeps is kept by the longer one. -/
theorem pruneHistory (h : s.Shares (window s.rules.historyTicks s.tick) t)
    (hle : s.rules.historyTicks ≤ t.rules.historyTicks) :
    (after Simulation.pruneHistory s).Shares (window s.rules.historyTicks s.tick)
        (after Simulation.pruneHistory t) ∧
      (after Simulation.pruneHistory s).world.journal =
        (after Simulation.pruneHistory t).world.journal.recent s.rules.historyTicks s.tick := by
  rw [after_of_ok (pruneHistory_eq_recent s), after_of_ok (pruneHistory_eq_recent t)]
  cases h with
  | mk hw =>
    cases hw with
    | mk hj =>
      exact ⟨.mk (s := { s with world.journal := s.world.journal.recent _ _ })
        (.mk (w := { s.world with journal := _ }) (hj.recent hle)), hj.recent_eq_recent hle⟩

/-- One more tick. The stamps of the shorter history are still shared, and if the tick
gets to its end it is what is kept of the longer one. -/
theorem advance (h : s.Shares (window s.rules.historyTicks s.tick) t)
    (hle : s.rules.historyTicks ≤ t.rules.historyTicks) (dt : Double) :
    (after (Simulation.advance dt) s).Shares (window s.rules.historyTicks (s.tick + 1))
        (after (Simulation.advance dt) t) ∧
      match Simulation.advance dt s, Simulation.advance dt t with
      | .ok _ s', .ok _ t' =>
        s'.world.journal = t'.world.journal.recent s.rules.historyTicks s'.tick
      | .error cause _, .error cause' _ => cause = cause'
      | _, _ => False := by
  have hstir := (h.mono fun _ => window_of_succ).stir dt
  obtain ⟨htick, hrules, -⟩ := exists_run_stir dt s
  obtain ⟨-, hrules', -⟩ := exists_run_stir dt t
  rw [advance_eq]
  rcases hstir.ok_or_error with ⟨a, u, v, hs, ht, huv⟩ | ⟨c, d, u, v, hs, ht, hcd, huv⟩
  · rw [after_of_ok hs] at htick hrules
    rw [after_of_ok ht] at hrules'
    rw [← hrules] at hle huv ⊢
    rw [← hrules'] at hle
    rw [← htick] at huv ⊢
    obtain ⟨hshare, hjournal⟩ := huv.pruneHistory hle
    rw [after_of_ok (pruneHistory_eq_recent u), after_of_ok (pruneHistory_eq_recent v)] at hjournal
    rw [after_bind_of_ok hs, after_bind_of_ok ht, bind_of_ok hs, bind_of_ok ht,
      pruneHistory_eq_recent u, pruneHistory_eq_recent v]
    exact ⟨hshare, hjournal⟩
  · rw [after_bind_of_error hs, after_bind_of_error ht, bind_of_error hs, bind_of_error ht]
    exact ⟨huv, hcd⟩

theorem afterTicks (h : s.Shares (window s.rules.historyTicks s.tick) t)
    (hle : s.rules.historyTicks ≤ t.rules.historyTicks) (dts : List Double) :
    (s.afterTicks dts).Shares (window s.rules.historyTicks (s.afterTicks dts).tick)
      (t.afterTicks dts) := by
  induction dts generalizing s t with
  | nil => exact h
  | cons dt dts ih =>
    have hone := (h.advance hle dt).1
    obtain ⟨htick, hrules⟩ := tick_after_advance dt s
    obtain ⟨-, hrules'⟩ := tick_after_advance dt t
    rw [← hrules, ← htick] at hone
    rw [← hrules, ← hrules'] at hle
    rw [afterTicks_cons, afterTicks_cons, ← hrules]
    exact ih hone hle

end Shares

variable [DecidableEq κ] {s : Simulation κ}

/-- **The length of the history makes no difference to the ticks.** Two simulations that
differ in it go through any ticks alike, those that fail included: they have the same
number of ticks behind them and of particles that ended, and the same worlds but for
the journals. For peers that are no further behind than the shorter history they have
the same changes. The next tick gets to its end in both or in neither, failing for the same
cause then, and once it gets there the shorter history is what it keeps of the
longer one. -/
theorem afterTicks_remember (s : Simulation κ) {h h' : Nat} (hle : h ≤ h') (dts : List Double) :
    let a := (s.remember h).afterTicks dts
    let b := (s.remember h').afterTicks dts
    b.tick = a.tick ∧ b.expired = a.expired ∧ b.world = { a.world with journal := b.world.journal } ∧
      b.world.journal.now = a.world.journal.now ∧
      (∀ v, a.tick ≤ v + h → a.deltaFor v = b.deltaFor v) ∧
      ∀ dt, match advance dt a, advance dt b with
        | .ok _ a', .ok _ b' => a'.world.journal =
            if h ≤ a'.tick then b'.world.journal.prune (a'.tick - h) else b'.world.journal
        | .error cause _, .error cause' _ => cause = cause'
        | _, _ => False := by
  intro a b
  have hstart : (s.remember h).Shares (window h s.tick) (s.remember h') :=
    .mk (s := s.remember h) (.mk (w := s.world) (.refl _ _))
  have hshare : a.Shares (window h a.tick) b := hstart.afterTicks hle dts
  have hlen : a.rules.historyTicks = h := congrArg Rules.historyTicks (tick_afterTicks _ dts).2
  have hlen' : b.rules.historyTicks = h' := congrArg Rules.historyTicks (tick_afterTicks _ dts).2
  refine ⟨hshare.tick_eq.symm, hshare.expired_eq.symm, hshare.world.eq_with,
    hshare.world.journal.now_eq.symm, fun v hv => ?_, fun dt => ?_⟩
  · refine hshare.world.captureSince_eq fun u hu => ?_
    simp only [window, decide_eq_true_eq]
    omega
  · rw [← hlen] at hshare hle ⊢
    rw [← hlen'] at hle
    exact (hshare.advance hle dt).2

/-- A star that drifts for two seconds, seen from a history of one tick and one of thirty:
the longer one has more stamps, but none that is later than the first tick. -/
theorem afterTicks_remember_driftingStar :
    let a := (driftingStar.remember 1).afterTicks (List.replicate 2 ⟨0x3ff0000000000000⟩)
    let b := (driftingStar.remember 30).afterTicks (List.replicate 2 ⟨0x3ff0000000000000⟩)
    a.world.journal.size < b.world.journal.size ∧ a.deltaFor 1 = b.deltaFor 1 := by
  have hle : 1 ≤ 30 := by decide
  obtain ⟨-, -, -, -, hdelta, -⟩ := afterTicks_remember driftingStar hle _
  exact ⟨by decide +kernel, hdelta 1 (tick_afterTicks _ _).1.le⟩

/-- Before the first tick a history of no ticks still has the stamps of the spawns, which are
of the version that this tick comes after. -/
theorem not_prune_unticked :
    let a := (gapped.remember 0).afterTicks []
    let b := (gapped.remember 30).afterTicks []
    gapped.Ready ∧ 0 ≤ a.tick ∧ a.world.journal ≠ b.world.journal.prune (a.tick - 0) := by
  refine ⟨ready_gapped, Nat.zero_le _, fun heq => ?_⟩
  have hsize := congrArg Journal.size heq
  revert hsize
  decide +kernel

end Simulation
end EntityWorld
