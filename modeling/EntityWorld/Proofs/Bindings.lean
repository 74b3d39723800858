/-
# Labels point at the living

A label is bound to an entity that is alive, and when the entity goes the binding
goes with it, whether it was killed or its particle came to its end in a tick. So a
label leads to somebody alive or to nobody: not to somebody who is gone, nor to
who lives in the slot by then.

This asks for one thing only: that no label is bound behind the world's back. The
labels may be taken out of its hands to make a new one or to undo bindings, and
columns and journal may be changed at will (`Move.SparesLabels`). No move but a
binding gives a label somebody to point at (`World.target?_of_move`).

Key definitions: `Move`, `Move.SparesLabels`, `World.Anchored`, `World.Tended`.
Key theorems: `Change.anchored`, `World.Anchored.move`, `World.target?_of_move`,
`World.Tended.labels_alive`.
-/
import EntityWorld.Proofs.Access
import EntityWorld.Proofs.Ticking
import Mathlib.Tactic

namespace EntityWorld

/-! ### Bindings -/

namespace Labels

variable {l : Labels} {e : Handle} {id : UInt32} {name : String}

theorem binds_of_target? (h : l.target? id = some e) : l.Binds e := by
  obtain ⟨x, hx, ht⟩ := Option.bind_eq_some_iff.mp h
  exact ⟨x, Array.mem_of_getElem? hx, ht⟩

theorem binds_of_targetOf? (h : l.targetOf? name = some e) : l.Binds e := by
  obtain ⟨id, -, ht⟩ := Option.bind_eq_some_iff.mp h
  exact binds_of_target? ht

/-- A label keeps its number when bindings are undone. -/
theorem id?_unbind (l : Labels) (e : Handle) (name : String) :
    (l.unbind e).id? name = l.id? name := by
  have hname : (fun x : Label => x.name == name) ∘
      (fun x : Label => if x.target = some e then { x with target := none } else x) =
      fun x => x.name == name := by
    funext x
    simp only [Function.comp_apply]
    split <;> rfl
  simp only [id?, unbind, Array.findIdx?_map, hname]

/-- What pointed at the entity points at nobody then, the rest where it did. -/
theorem target?_unbind_eq_ite (l : Labels) (e : Handle) (id : UInt32) :
    (l.unbind e).target? id = if l.target? id = some e then none else l.target? id := by
  rw [target?_unbind]
  cases l.target? id with
  | none => rfl
  | some e' =>
    by_cases he : e' = e
    · rw [he, if_pos rfl]
      exact Option.filter_eq_none_iff.mpr (by simp)
    · rw [if_neg fun heq => he (Option.some.inj heq)]
      exact Option.filter_eq_some_iff.mpr ⟨rfl, by simpa using he⟩

/-- A new label points at nobody. -/
theorem target?_push (name : String) (i : UInt32) :
    target? ⟨l.entries.push ⟨name, none⟩⟩ i = l.target? i := by
  simp only [target?, Array.getElem?_push]
  split
  · next h => rw [h, Array.getElem?_eq_none (le_refl _)]; rfl
  · rfl

theorem target?_create (name : String) (l : Labels) (i : UInt32) :
    (after (create name) l).target? i = l.target? i := by
  by_cases hn : (l.id? name).isSome
  · rw [after_of_error (create_of_isSome hn)]
  · rw [after_of_ok (create_of_not_isSome hn), target?_push]

end Labels

variable {κ : Type} [Family κ]

/-! ### Moves -/

/-- Whether an operation binds a label. -/
def Operation.Binds : Operation κ → Prop
  | bindLabel _ _ | createLabel _ _ => True
  | _ => False

/-- What may happen to a world: somebody gets at it, or a simulation of it ticks. -/
inductive Move (κ : Type) [Family κ] where
  | access (a : Access (Stocked κ))
  /-- A tick of some length after another one, in a simulation with some rules. -/
  | tick (rules : Simulation.Rules) (last expired : Nat) (dt : Double)

namespace Move

/-- The labels are not taken out of the world's hands, but for what `Operation` has. -/
def SparesLabels : Move κ → Prop
  | access (.labels _) => False
  | _ => True

/-- Whether a move binds a label. -/
def Binds : Move κ → Prop
  | access (.operate op) => op.Binds
  | _ => False

end Move

variable [DecidableEq κ]

/-- The world after a move. -/
def Move.apply : Move κ → World (Stocked κ) → World (Stocked κ)
  | access a, w => a.apply w
  | tick rules last expired dt, w =>
    (after (Simulation.advance dt) { rules, world := w, tick := last, expired }).world

/-- The world after some moves, one after another. -/
def World.moves (w : World (Stocked κ)) (ms : List (Move κ)) : World (Stocked κ) :=
  ms.foldl (fun w m => m.apply w) w

theorem World.labels_replay {w : World κ} {xs : List SnapshotEntry} (hw : w.pool.WellFormed)
    (hr : ∀ x ∈ xs, w.Replayable x) : (w.replay xs).labels = w.labels :=
  replay_induction (motive := fun _ u => u.labels = w.labels) hw hr [] rfl
    (fun hu _ _ => hu) fun _ hu _ _ => hu

/-- An operation that binds no label gives none somebody to point at. -/
theorem Outcome.target?_of {w w' : World κ} {op : Operation κ} {xs : List Event}
    (h : Outcome w op xs w') (hw : w.pool.WellFormed) (hop : ¬ op.Binds) {id : UInt32} {e : Handle}
    (ht : w'.labels.target? id = some e) : w.labels.target? id = some e := by
  cases h with
  | kill =>
    change (w.labels.unbind _).target? id = some e at ht
    rw [Labels.target?_unbind] at ht
    exact (Option.filter_eq_some_iff.mp ht).1
  | unbindLabels =>
    change (w.labels.unbind _).target? id = some e at ht
    rw [Labels.target?_unbind] at ht
    exact (Option.filter_eq_some_iff.mp ht).1
  | nameLabel => rwa [← Labels.target?_create]
  | bindLabel => exact (hop trivial).elim
  | createLabel => exact (hop trivial).elim
  | restore hr => rwa [World.labels_replay hw hr] at ht
  | _ => exact ht

/-! ### Anchored labels -/

/-- Whom a label points at is alive. -/
structure World.Anchored (w : World κ) : Prop where
  pool : w.pool.WellFormed
  isAlive_of_binds : ∀ e, w.labels.Binds e → w.isAlive e

theorem Change.anchored {op : Operation κ} {w w' : World κ} (h : Change op w w')
    (hw : w.Anchored) : w'.Anchored := by
  cases h with
  | enter he hp => exact ⟨hp, fun e hb => he.isAlive_iff.mpr (Or.inr (hw.isAlive_of_binds e hb))⟩
  | leave he hp =>
    refine ⟨hp, fun e hb => ?_⟩
    obtain ⟨hb, hne⟩ := Labels.binds_unbind.mp hb
    exact he.isAlive_iff.mpr ⟨hne, hw.isAlive_of_binds e hb⟩
  | relabel hl => exact ⟨hw.pool, fun e hb => (hl e hb).elim (hw.isAlive_of_binds e) id⟩
  | _ => exact ⟨hw.pool, hw.isAlive_of_binds⟩

theorem World.Anchored.apply {w : World κ} (hw : w.Anchored) (op : Operation κ) :
    (op.apply w).Anchored :=
  Change.keeps_row Change.anchored (Change.row_apply op hw.pool) hw

namespace World

variable {w : World (Stocked κ)} {m : Move κ}

/-- The labels stay as they are when a column is changed. -/
theorem labels_modifyColumn (k : Stocked κ) (f : Column (Value k) → Column (Value k)) :
    (after (modifyColumn k f) w).labels = w.labels := by
  rw [after_modifyColumn]
  split <;> rfl

/-- What every operation keeps, and the pruning of the journal, a tick keeps. -/
theorem move_tick_of_closed {J : World (Stocked κ) → Prop}
    (hJ : ∀ op : Operation (Stocked κ), ¬ op.Binds → ∀ w, J w → J (op.apply w)) (hw : J w)
    (rules : Simulation.Rules) (last expired : Nat) (dt : Double) :
    J ((Move.tick rules last expired dt).apply w) := by
  have hstirs : ∀ op : Operation (Stocked κ), op.Stirs → ∀ w, J w → J (op.apply w) := by
    intro op hop
    refine hJ op fun hb => ?_
    cases op with
    | bindLabel | createLabel => exact hop
    | _ => exact hb
  have hbegun : J (w.setVersion (last + 1)) := hJ (.setVersion _) id w hw
  exact (Simulation.within_advance
    (Simulation.within_stir_of_closed (s := ⟨rules, w, last, expired⟩) hstirs hbegun dt)
    fun _ u hu => hJ (.prune _) id u hu).2.2

theorem Anchored.move (hw : w.Anchored) (hm : m.SparesLabels) : (m.apply w).Anchored := by
  cases m with
  | access a =>
    cases a with
    | operate op => exact hw.apply op
    | column k f =>
      change (after (modifyColumn k f) w).Anchored
      refine ⟨?_, fun e hb => ?_⟩
      · rw [pool_modifyColumn]
        exact hw.pool
      · rw [labels_modifyColumn] at hb
        unfold isAlive
        rw [pool_modifyColumn]
        exact hw.isAlive_of_binds e hb
    | labels f => exact hm.elim
    | journal f => exact ⟨hw.pool, hw.isAlive_of_binds⟩
  | tick rules last expired dt => exact move_tick_of_closed (fun op _ _ hu => hu.apply op) hw ..

/-- A move that binds no label gives none somebody to point at. -/
theorem target?_of_move (hw : w.pool.WellFormed) (hm : m.SparesLabels) (hb : ¬ m.Binds)
    {id : UInt32} {e : Handle} (ht : (m.apply w).labels.target? id = some e) :
    w.labels.target? id = some e := by
  cases m with
  | access a =>
    cases a with
    | operate op => exact (op.outcome_apply hw).target?_of hw hb ht
    | column k f =>
      change (after (modifyColumn k f) w).labels.target? id = some e at ht
      rwa [labels_modifyColumn] at ht
    | labels f => exact hm.elim
    | journal f => exact ht
  | tick rules last expired dt =>
    let J (u : World (Stocked κ)) : Prop := u.pool.WellFormed ∧
      (u.labels.target? id = some e → w.labels.target? id = some e)
    have hJ : ∀ op : Operation (Stocked κ), ¬ op.Binds → ∀ u, J u → J (op.apply u) := by
      rintro op hop u ⟨hp, hu⟩
      have hp' := Change.keeps_row Change.pool_wellFormed (Change.row_apply op hp) hp
      exact ⟨hp', fun ht => hu ((op.outcome_apply hp).target?_of hp hop ht)⟩
    exact (move_tick_of_closed hJ ⟨hw, fun ht => ht⟩ ..).2 ht

/-! ### Tended worlds -/

/-- The worlds that moves lead to, if labels are bound by the worlds themselves. -/
inductive Tended : World (Stocked κ) → Prop where
  | start {s : Settings} {w : World (Stocked κ)} : ofSettings? s = some w → Tended w
  | move {w : World (Stocked κ)} {m : Move κ} : Tended w → m.SparesLabels → Tended (m.apply w)

theorem Tended.moves {w : World (Stocked κ)} (h : w.Tended) {ms : List (Move κ)}
    (hms : ∀ m ∈ ms, m.SparesLabels) : (w.moves ms).Tended := by
  induction ms generalizing w with
  | nil => exact h
  | cons m ms ih =>
    exact ih (h.move (hms m List.mem_cons_self)) fun m' hm' => hms m' (List.mem_cons_of_mem m hm')

omit [DecidableEq κ] in
theorem labels_of_kill {w w' : World κ} {e : Handle} (h : kill e w = .ok () w') :
    w'.labels = w.labels.unbind e := by
  unfold kill at h
  cases hp : SlotPool.kill e w.pool with
  | error cause pool =>
    rw [hp] at h
    cases h
  | ok _ pool =>
    rw [hp] at h
    cases h
    rfl

theorem Tended.anchored (h : w.Tended) : w.Anchored := by
  induction h with
  | start hs =>
    have hw := wellFormed_of_ofSettings? hs
    exact ⟨hw.pool, hw.isAlive_of_binds⟩
  | move _ hm ih => exact ih.move hm

/-- **No label points at the dead.** Whatever happens to a world that binds its labels
itself, whom a label leads to, by its number or by its name, is alive. An entity
that is killed takes the bindings to it along and no others, and all labels stay;
and no label comes to point at somebody by a move that binds none. -/
theorem Tended.labels_alive (h : w.Tended) :
    (∀ id e, w.labels.target? id = some e → w.isAlive e) ∧
    (∀ name e, w.labels.targetOf? name = some e → w.isAlive e) ∧
    (∀ e w', kill e w = .ok () w' →
      (∀ name, w'.labels.id? name = w.labels.id? name) ∧
      ∀ id, w'.labels.name? id = w.labels.name? id ∧ w'.labels.target? id =
        if w.labels.target? id = some e then none else w.labels.target? id) ∧
    ∀ m : Move κ, m.SparesLabels → ¬ m.Binds → ∀ id e,
      (m.apply w).labels.target? id = some e → w.labels.target? id = some e := by
  have hw := h.anchored
  refine ⟨fun id e ht => hw.isAlive_of_binds e (Labels.binds_of_target? ht),
    fun name e ht => hw.isAlive_of_binds e (Labels.binds_of_targetOf? ht), fun e w' hk => ?_,
    fun m hm hb id e => target?_of_move hw.pool hm hb⟩
  rw [labels_of_kill hk]
  exact ⟨Labels.id?_unbind _ e, fun id => ⟨Labels.name?_unbind _ e id,
    Labels.target?_unbind_eq_ite _ e id⟩⟩

/-- Two labelled entities, of which one is killed; another is spawned into its slot, and
a tick goes by. -/
def slotRetaken : World (Stocked Empty) :=
  moves {} [.access (.operate (.registerSynced .transform Transform.codec)),
    .access (.operate (.register .particle)), .access (.operate (.register .star)),
    .access (.operate .spawn), .access (.operate .spawn),
    .access (.operate (.createLabel "lamp" ⟨0, 0⟩)),
    .access (.operate (.createLabel "moth" ⟨1, 0⟩)), .access (.operate (.kill ⟨1, 0⟩)),
    .access (.operate .spawn), .tick { particles := 0 } 0 0 ⟨0⟩]

theorem labels_alive_slotRetaken :
    slotRetaken.isAlive ⟨1, 1⟩ ∧ slotRetaken.labels.targetOf? "moth" = none ∧
      slotRetaken.labels.targetOf? "lamp" = some ⟨0, 0⟩ ∧ slotRetaken.isAlive ⟨0, 0⟩ := by
  have htended : slotRetaken.Tended := by
    refine Tended.moves (.start (s := {}) rfl) ?_
    simp [Move.SparesLabels]
  have hlamp : slotRetaken.labels.targetOf? "lamp" = some ⟨0, 0⟩ := by decide +kernel
  exact ⟨by decide +kernel, by decide +kernel, hlamp, htended.labels_alive.2.1 _ _ hlamp⟩

end World
end EntityWorld
