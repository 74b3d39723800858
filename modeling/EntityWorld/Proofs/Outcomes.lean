/-
# What an operation comes to

An operation is refused and leaves the world as it is, or it does one thing, and
`Outcome` says which. This is finer than a row of changes: a write says what it
writes, a claim which slot it takes. Restoring is the one operation that goes
on and on; what a replay leaves is told by induction over its entries, each of
which lets somebody in, if need be, and writes one component
(`World.replay_induction`).

An outcome also says who came and who went (`Event`). These are the handles that
`spawn` and `claim` give back, those that a replay gets for the slots it has to
claim, and those that `kill` accepts.

Every outcome is some elementary changes in a row (`Change.row_apply`). So what
each change keeps, every operation and every run keeps.

Key definitions: `Event`, `Operation.events`, `World.newcomers`, `Outcome`.
Key theorems: `Operation.outcome_apply`, `World.replay_induction`,
`Change.row_apply`.
-/
import EntityWorld.Proofs.Replay
import Mathlib.Tactic

namespace EntityWorld

/-! ### Events -/

/-- Somebody came or went. -/
inductive Event where
  | begun (e : Handle)
  | ended (e : Handle)
deriving DecidableEq

/-- The handle that an action gives out. -/
def given {ε σ : Type} (act : EStateM ε σ Handle) (s : σ) : List Handle :=
  match act s with
  | .ok e _ => [e]
  | .error _ _ => []

theorem given_of_ok {ε σ : Type} {act : EStateM ε σ Handle} {s t : σ} {e : Handle}
    (h : act s = .ok e t) : given act s = [e] := by
  unfold given
  rw [h]

theorem given_of_error {ε σ : Type} {act : EStateM ε σ Handle} {s t : σ} {c : ε}
    (h : act s = .error c t) : given act s = [] := by
  unfold given
  rw [h]

variable {κ : Type} [Family κ] [DecidableEq κ]

/-- The handles that a replay gets for the slots it claims. -/
def World.newcomers : World κ → List SnapshotEntry → List Handle
  | _, [] => []
  | w, x :: xs =>
    (if w.isAlive (w.pool.current x.index) then [] else given (World.occupy x.index) w) ++
      newcomers (after (World.restoreEntry x) w) xs

/-- Who comes and who goes by an operation. -/
def Operation.events : Operation κ → World κ → List Event
  | spawn, w => (given World.spawn w).map .begun
  | claim i, w => (given (World.claim i) w).map .begun
  | restore s, w =>
    match w.check s.entries with
    | .ok _ => (w.newcomers s.entries).map .begun
    | .error _ => []
  | kill e, w =>
    match World.kill e w with
    | .ok _ _ => [.ended e]
    | .error _ _ => []
  | _, _ => []

namespace Operation

variable {w w' : World κ} {e : Handle} {cause : WorldError}

theorem events_kill_of_ok (h : World.kill e w = .ok () w') : (kill e).events w = [.ended e] := by
  simp only [events, h]

theorem events_kill_of_error (h : World.kill e w = .error cause w') : (kill e).events w = [] := by
  simp only [events, h]

end Operation

/-! ### Outcomes -/

/-- What an operation does to a world, and who comes and goes by it. -/
inductive Outcome (w : World κ) : Operation κ → List Event → World κ → Prop where
  | refused (op : Operation κ) : Outcome w op [] w
  | register {k : κ} : w.ofTag? (tagOf k) = none → Outcome w (.register k) [] (w.enroll k none)
  | registerSynced {k : κ} {codec : Codec (Value k)} : w.ofTag? (tagOf k) = none →
      Outcome w (.registerSynced k codec) [] (w.enroll k (some codec))
  | offer {k : κ} {codec : Codec (Value k)} : w.isRegistered k →
      Outcome w (.registerSynced k codec) [] (w.offer k (some codec))
  | spawn {e : Handle} {pool : SlotPool} : SlotPool.spawn w.pool = .ok e pool →
      Outcome w .spawn [.begun e] (w.enter e pool)
  | claim {i : UInt32} {e : Handle} {pool : SlotPool} : w.mayClaim i →
      SlotPool.claim i w.pool = .ok e pool → Outcome w (.claim i) [.begun e] (w.enter e pool)
  | kill {e : Handle} {pool : SlotPool} : SlotPool.kill e w.pool = .ok () pool →
      Outcome w (.kill e) [.ended e] (w.leave e pool)
  | add {k : κ} {e : Handle} {v : Value k} : w.isRegistered k → w.isAlive e →
      Outcome w (.add k e v) [] (w.write k e (some v))
  | emplace {k : κ} {e : Handle} {make : Unit → Option (Value k)} : w.isRegistered k →
      w.isAlive e → Outcome w (.emplace k e make) [] (w.write k e (make ()))
  | remove {k : κ} {e : Handle} : w.isRegistered k → w.isAlive e →
      Outcome w (.remove k e) [] (w.discard k e)
  | markDirty {k : κ} {e : Handle} : w.isRegistered k → (w.get? k e).isSome →
      Outcome w (.markDirty k e) [] (w.stamp k e)
  | edit {k : κ} {e : Handle} {f : Value k → Value k} : w.isRegistered k → (w.get? k e).isSome →
      Outcome w (.edit k e f) [] (w.rework k (·.modify e.slot f))
  | editAt {k : κ} {i : Nat} {f : Value k → Value k} : w.isRegistered k →
      Outcome w (.editAt k i f) [] (w.rework k (·.modify i f))
  | editAll {k : κ} {f : Value k → Value k} : w.isRegistered k →
      Outcome w (.editAll k f) [] (w.rework k (·.map f))
  | nameLabel {name : String} :
      Outcome w (.nameLabel name) [] { w with labels := after (Labels.create name) w.labels }
  | bindLabel {id : UInt32} {e : Handle} : w.isAlive e →
      Outcome w (.bindLabel id e) [] { w with labels := after (Labels.bind id e) w.labels }
  | createLabel {name : String} {e : Handle} : w.isAlive e → Outcome w (.createLabel name e) []
      { w with labels := after (Labels.createAndBind name e) w.labels }
  | unbindLabels {e : Handle} :
      Outcome w (.unbindLabels e) [] { w with labels := w.labels.unbind e }
  | restore {s : Snapshot} : (∀ x ∈ s.entries, w.Replayable x) →
      Outcome w (.restore s) ((w.newcomers s.entries).map .begun) (w.replay s.entries)
  | setVersion {v : Nat} : Outcome w (.setVersion v) [] (w.setVersion v)
  | prune {v : Nat} : Outcome w (.prune v) [] (w.prune v)
  | forget {x : Journal.Key} :
      Outcome w (.forget x) [] { w with journal := w.journal.forget x }

namespace Outcome

variable {w : World κ} {op : Operation κ} {k : κ} {e : Handle}

/-- An action that may be refused comes to what it comes to when it is not. -/
theorem of_refusal {α : Type} {act done : World.Action κ α}
    (heq : ∀ w, act w = match w.refusal? k e with
      | some cause => .error cause w
      | none => done w)
    (hd : w.isRegistered k → w.isAlive e → Outcome w op [] (after done w)) :
    Outcome w op [] (after act w) := by
  have hact := heq w
  cases h : w.refusal? k e with
  | some cause =>
    rw [h] at hact
    rw [after_of_error hact]
    exact .refused op
  | none =>
    obtain ⟨hk, he⟩ := World.refusal?_eq_none_iff.mp h
    have hsame : after act w = after done w := by
      unfold after
      rw [hact, h]
    rw [hsame]
    exact hd hk he

theorem of_register {codec : Option (Codec (Value k))}
    (henroll : w.ofTag? (tagOf k) = none → Outcome w op [] (w.enroll k codec))
    (hoffer : w.isRegistered k → Outcome w op [] (w.offer k codec)) :
    Outcome w op [] (after (World.registerWith k codec) w) := by
  by_cases hk : w.isRegistered k
  · have hr := World.registerWith_of_isRegistered hk codec
    cases hrep : w.settings.repeats with
    | reject =>
      rw [hrep] at hr
      rw [after_of_error hr]
      exact .refused op
    | accept =>
      rw [hrep] at hr
      rw [after_of_ok hr]
      exact hoffer hk
  · have hr := World.registerWith_of_not_isRegistered hk codec
    cases ht : w.ofTag? (tagOf k) with
    | some other =>
      rw [ht] at hr
      rw [after_of_error hr]
      exact .refused op
    | none =>
      rw [ht] at hr
      rw [after_of_ok hr]
      exact henroll ht

theorem of_modifyColumn {f : Column (Value k) → Column (Value k)}
    (h : w.isRegistered k → Outcome w op [] (w.rework k f)) :
    Outcome w op [] (after (World.modifyColumn k f) w) := by
  by_cases hk : w.isRegistered k
  · rw [after_of_ok (World.modifyColumn_of_isRegistered hk f)]
    exact h hk
  · have hm : World.modifyColumn k f w = .error (.notRegistered (typeName k)) w := if_neg hk
    rw [after_of_error hm]
    exact .refused op

theorem of_onLabels {α : Type} {act : EStateM LabelError Labels α}
    (h : w.isAlive e → Outcome w op [] { w with labels := after act w.labels }) :
    Outcome w op [] (after (World.onLabels e act) w) := by
  rw [Change.after_onLabels]
  split
  · next he => exact h he
  · exact .refused op

theorem of_spawn : Outcome w .spawn ((given World.spawn w).map .begun) (after World.spawn w) := by
  cases h : SlotPool.spawn w.pool with
  | ok e pool =>
    have hs := World.spawn_of_ok h
    rw [given_of_ok hs, after_of_ok hs]
    exact .spawn h
  | error cause pool =>
    have hs := World.spawn_of_error h
    rw [given_of_error hs, after_of_error hs]
    exact .refused .spawn

theorem of_claim (i : UInt32) :
    Outcome w (.claim i) ((given (World.claim i) w).map .begun) (after (World.claim i) w) := by
  by_cases hm : w.mayClaim i
  · cases h : SlotPool.claim i w.pool with
    | ok e pool =>
      have hc : World.claim i w = .ok e (w.enter e pool) := by
        simp only [World.claim, if_pos hm, EStateM.adaptExcept, World.occupy, h]
        rfl
      rw [given_of_ok hc, after_of_ok hc]
      exact .claim hm h
    | error cause pool =>
      have hc : World.claim i w = .error (.handle cause) w := by
        simp only [World.claim, if_pos hm, EStateM.adaptExcept, World.occupy, h]
      rw [given_of_error hc, after_of_error hc]
      exact .refused (.claim i)
  · have hc : World.claim i w = .error (.handle (.outOfRange i)) w := if_neg hm
    rw [given_of_error hc, after_of_error hc]
    exact .refused (.claim i)

theorem of_kill (e : Handle) :
    Outcome w (.kill e) ((Operation.kill e).events w) (after (World.kill e) w) := by
  cases h : SlotPool.kill e w.pool with
  | ok _ pool =>
    have hk := World.kill_of_ok h
    rw [Operation.events_kill_of_ok hk, after_of_ok hk]
    exact .kill h
  | error cause pool =>
    have hk := World.kill_of_error h
    rw [Operation.events_kill_of_error hk, after_of_error hk]
    exact .refused (.kill e)

theorem of_restore (hp : w.pool.WellFormed) (s : Snapshot) :
    Outcome w (.restore s) ((Operation.restore s).events w) (after (World.restore s) w) := by
  simp only [Operation.events]
  cases hc : w.check s.entries with
  | error cause =>
    rw [after_of_error (World.restore_of_check_error hc)]
    exact .refused (.restore s)
  | ok u =>
    rw [after_of_ok (World.restore_of_check hp hc)]
    exact .restore (World.replayable_of_check hc)

end Outcome

/-- Every operation comes to one of these. -/
theorem Operation.outcome_apply {w : World κ} (hp : w.pool.WellFormed) (op : Operation κ) :
    Outcome w op (op.events w) (op.apply w) := by
  cases op with
  | register k =>
    exact .of_register .register fun hk => by
      rw [World.offer_none]
      exact .refused _
  | registerSynced k codec => exact .of_register .registerSynced .offer
  | spawn => exact .of_spawn
  | claim i => exact .of_claim i
  | kill e => exact .of_kill e
  | add k e v => exact .of_refusal (World.add_eq k e v) .add
  | emplace k e make => exact .of_refusal (World.emplace_eq k e make) .emplace
  | remove k e => exact .of_refusal (World.remove_eq k e) .remove
  | markDirty k e =>
    refine .of_refusal (World.markDirty_eq k e) fun hk _ => ?_
    simp only [after]
    cases h : (w.get? k e).isSome with
    | true => exact .markDirty hk h
    | false => exact .refused _
  | edit k e f =>
    have hedit := World.edit_eq k e f w
    by_cases hk : w.isRegistered k
    · rw [if_pos hk] at hedit
      have hafter : (Operation.edit k e f).apply w = _ := after_of_ok hedit
      rw [hafter]
      cases h : (w.get? k e).isSome with
      | true => exact .edit hk h
      | false => exact .refused _
    · rw [if_neg hk] at hedit
      have hafter : (Operation.edit k e f).apply w = w := after_of_error hedit
      rw [hafter]
      exact .refused _
  | editAt k i f => exact .of_modifyColumn .editAt
  | editAll k f => exact .of_modifyColumn .editAll
  | nameLabel name => exact .nameLabel
  | bindLabel id e => exact .of_onLabels .bindLabel
  | createLabel name e => exact .of_onLabels .createLabel
  | unbindLabels e => exact .unbindLabels
  | restore s => exact .of_restore hp s
  | setVersion v => exact .setVersion
  | prune v => exact .prune
  | forget x => exact .forget

/-! ### Replays -/

namespace World

variable {w : World κ}

/-- What holds of a replay at its start holds at its end, if neither letting
somebody in harms it nor writing a component. -/
theorem replay_induction {motive : List Handle → World κ → Prop} {xs : List SnapshotEntry}
    (hw : w.pool.WellFormed) (hr : ∀ x ∈ xs, w.Replayable x) (es : List Handle)
    (hstart : motive es w)
    (henter : ∀ {es u e pool}, motive es u → u.pool.Enters e pool → pool.WellFormed →
      motive (es ++ [e]) (u.enter e pool))
    (hwrite : ∀ {es u k e} (v : Value k), motive es u → u.isRegistered k → u.isAlive e →
      motive es (u.write k e (some v))) :
    motive (es ++ w.newcomers xs) (w.replay xs) := by
  induction xs generalizing w es with
  | nil =>
    rw [newcomers, List.append_nil]
    exact hstart
  | cons x xs ih =>
    have hrest := replayable_of_cons hw hr
    have hx := hr x List.mem_cons_self
    obtain ⟨-, hp, -⟩ := hx.step hw
    obtain ⟨k, c, v, hs, hi, hd⟩ := hx
    have heq := after_of_ok (restoreEntry_eq hw hi hs hd)
    have hk := (isRegistered_settle (i := x.index) k).trans (isRegistered_of_synced? hs).1
    have hlive : (w.settle x.index).isAlive (w.pool.current x.index) :=
      (isAlive_settle hw hi).mpr (Or.inl rfl)
    -- the slot is settled first, by whoever lives there or by a newcomer
    have hsettled : motive (es ++ if w.isAlive (w.pool.current x.index) then []
        else given (occupy x.index) w) (w.settle x.index) := by
      unfold settle
      by_cases ha : w.isAlive (w.pool.current x.index)
      · rw [if_pos ha, if_pos ha, List.append_nil]
        exact hstart
      · have hc := claim_current hw hi ha
        rw [if_neg ha, if_neg ha, given_of_ok (occupy_current hw hi ha)]
        exact henter hstart (SlotPool.enters_of_claim hw hc).1 (SlotPool.wellFormed_of_claim hw hc)
    have hwritten := hwrite v hsettled hk hlive
    rw [← heq] at hwritten
    have hend := ih hp hrest _ hwritten
    rw [List.append_assoc] at hend
    exact hend

end World

/-! ### Outcomes are changes in a row -/

namespace Change

variable {w w' : World κ} {op : Operation κ}

theorem row_replay (op : Operation κ) (hp : w.pool.WellFormed) {entries : List SnapshotEntry}
    (hr : ∀ x ∈ entries, w.Replayable x) : Row op w (w.replay entries) :=
  World.replay_induction (motive := fun _ u => Row op w u) hp hr [] .refl
    (fun hu he hq => hu.tail (.enter he hq)) fun v hu hk he => hu.tail (.write (some v) hk he)

theorem row_of_outcome {xs : List Event} (hp : w.pool.WellFormed) (h : Outcome w op xs w') :
    Row op w w' := by
  cases h with
  | refused => exact .refl
  | register ht => exact .single (.enroll none ht)
  | registerSynced ht => exact .single (.enroll _ ht)
  | offer => exact .single (.offer _)
  | spawn hs =>
    exact .single (.enter (SlotPool.enters_of_spawn hp hs) (SlotPool.wellFormed_of_spawn hp hs))
  | claim _ hc =>
    exact .single (.enter (SlotPool.enters_of_claim hp hc).1 (SlotPool.wellFormed_of_claim hp hc))
  | kill hk => exact .single (.leave (SlotPool.leaves_of_kill hk) (SlotPool.wellFormed_of_kill hp hk))
  | add hk he => exact .single (.write _ hk he)
  | emplace hk he => exact .single (.write _ hk he)
  | remove hk he => exact .single (.discard hk he)
  | markDirty hk hg => exact .single (.stamp hk hg)
  | edit hk hg => exact .single (.edit _ hk hg)
  | editAt => exact .single (.editAt _ _)
  | editAll => exact .single (.editAll _)
  | nameLabel => exact .single (.relabel fun _ h => Or.inl (binds_create h))
  | @bindLabel id e he =>
    refine .single (.relabel fun e' h => ?_)
    rcases bindsOnly_bind id e w.labels e' h with hold | rfl
    · exact Or.inl hold
    · exact Or.inr he
  | @createLabel name e he =>
    refine .single (.relabel fun e' h => ?_)
    rcases bindsOnly_createAndBind name e w.labels e' h with hold | rfl
    · exact Or.inl hold
    · exact Or.inr he
  | unbindLabels => exact .single (.relabel fun _ h => Or.inl (Labels.binds_unbind.mp h).1)
  | restore hr => exact row_replay _ hp hr
  | setVersion => exact .single (.setVersion _)
  | prune => exact .single (.prune _)
  | forget => exact .single (.forget _)

/-- Every operation is some changes in a row. -/
theorem row_apply (op : Operation κ) (hp : w.pool.WellFormed) : Row op w (op.apply w) :=
  row_of_outcome hp (op.outcome_apply hp)

end Change
end EntityWorld
