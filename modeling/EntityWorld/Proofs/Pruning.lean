/-
# Pruning early or late

Pruning drops the stamps up to a version and keeps all later ones as they are, so
pruning twice drops what the later of the two versions drops (`Journal.prune_prune`).
Nobody who asks for what came after that version or a later one notices.

A record is made without a look at what it overwrites and clears. So it does not matter
whether the old stamps are still there, as long as the new one is past the version that
was pruned: each record can be made before the pruning or after it
(`Journal.prune_record`). Operations do not ask the journal either, so with its records
an operation changes places with the pruning, and a run does (`World.run_prune`).

Key definitions: `Journal.PrunedTo`, `Journal.PrunedBehind`, `Operation.Stamps`.
Key theorems: `Journal.prune_prune`, `Journal.prune_record`, `World.apply_prune`,
`World.run_prune`, `World.prune_unnoticed`.
-/
import EntityWorld.Proofs.Horizon
import Mathlib.Tactic

namespace EntityWorld

/-! ### Journals -/

namespace Journal

variable {j : Journal} {a : Nat}

theorem prune_prune (j : Journal) (a b : Nat) : (j.prune a).prune b = j.prune (max a b) := by
  have hmax : ∀ o : Option Nat, (o.filter (a < ·)).filter (b < ·) = o.filter (max a b < ·) := by
    intro o
    rw [Option.filter_filter]
    congr 1
    funext u
    rw [← Bool.decide_and, decide_eq_decide, max_lt_iff]
  refine eq_of_stamp? rfl fun x => ?_
  rw [stamp?_prune, stamp?_prune, stamp?_prune, hmax]

theorem prune_comm (j : Journal) (a b : Nat) : (j.prune a).prune b = (j.prune b).prune a := by
  rw [prune_prune, prune_prune, max_comm]

theorem size_prune_le (j : Journal) (a : Nat) : (j.prune a).size ≤ j.size := by
  have hcreated : (j.prune a).created.size ≤ j.created.size := Std.ExtTreeMap.size_filter_le_size
  have hdestroyed : (j.prune a).destroyed.size ≤ j.destroyed.size :=
    Std.ExtTreeMap.size_filter_le_size
  have hupdated : (j.prune a).updated.size ≤ j.updated.size := Std.ExtTreeMap.size_filter_le_size
  have hremoved : (j.prune a).removed.size ≤ j.removed.size := Std.ExtTreeMap.size_filter_le_size
  unfold size
  omega

/-- Nothing is lost in counting what pruning drops. -/
theorem size_prune_add (j : Journal) (a : Nat) : (j.prune a).size + j.pruneCount a = j.size :=
  Nat.add_sub_of_le (j.size_prune_le a)

/-- Nothing is counted twice either. -/
theorem pruneCount_add (j : Journal) (a b : Nat) :
    j.pruneCount a + (j.prune a).pruneCount b = j.pruneCount (max a b) := by
  have hfirst := j.size_prune_add a
  have hsecond := (j.prune a).size_prune_add b
  have honce := j.size_prune_add (max a b)
  rw [prune_prune] at hsecond
  omega

/-- What the one of two journals has and the other has not is what was dropped: `dropped`
stamps, all those up to a version and no other. -/
structure PrunedTo (j : Journal) (a : Nat) (j' : Journal) (dropped : Nat) : Prop where
  now_eq : j'.now = j.now
  stamp?_eq_some_iff : ∀ x v, j'.stamp? x = some v ↔ j.stamp? x = some v ∧ a < v
  size_add : j'.size + dropped = j.size

theorem prunedTo_prune (j : Journal) (a : Nat) : j.PrunedTo a (j.prune a) (j.pruneCount a) where
  now_eq := rfl
  stamp?_eq_some_iff x v := by rw [stamp?_prune, Option.filter_eq_some_iff, decide_eq_true_eq]
  size_add := j.size_prune_add a

/-- A record of a later version may be made before the pruning or after it. -/
theorem prune_record (ha : a < j.now) (r : Record) : (j.prune a).record r = (j.record r).prune a := by
  have hnow : ((j.prune a).record r).now = (j.record r).now := by
    rw [now_record, now_record]
    rfl
  refine eq_of_stamp? hnow fun x => ?_
  rw [stamp?_prune, stamp?_record, stamp?_record, stamp?_prune]
  split
  · rw [Option.filter_some, if_pos (decide_eq_true ha)]
    rfl
  · split <;> rfl

/-- One stamp may be dropped before the others or after them. -/
theorem prune_forget (j : Journal) (a : Nat) (x : Key) :
    (j.prune a).forget x = (j.forget x).prune a := by
  have hnow : ((j.prune a).forget x).now = (j.forget x).now := by cases x <;> rfl
  refine eq_of_stamp? hnow fun y => ?_
  rw [stamp?_prune, stamp?_forget, stamp?_forget, stamp?_prune]
  split <;> rfl

end Journal

/-! ### Operations after the pruning or before it -/

/-- The operation may stamp something. -/
def Operation.Stamps {κ : Type} [Family κ] : Operation κ → Prop
  | .spawn | .claim _ | .kill _ | .add .. | .emplace .. | .remove .. | .markDirty .. | .restore _ =>
    True
  | _ => False

/-- The one journal is the other after a pruning that is behind its clock. -/
def Journal.PrunedBehind (a : Nat) (j j' : Journal) : Prop := a < j.now ∧ j' = j.prune a

theorem Journal.kept_prunedBehind (a : Nat) : Journal.Kept (Journal.PrunedBehind a) := by
  rintro j _ ⟨ha, rfl⟩ r
  exact ⟨by rwa [now_record], prune_record ha r⟩

namespace World

variable {κ : Type} [Family κ] {R : Journal → Journal → Prop} {a : Nat} {w : World κ}

theorem after_prune (hR : ∀ {j j'}, R j j' → j' = j.prune a) {ε α : Type}
    {act : EStateM ε (World κ) α} (h : Agree (UpToJournal R) Eq (act w) (act (w.prune a))) :
    after act (w.prune a) = (after act w).prune a := by
  have hpruned := h.after
  generalize after act w = u, after act (w.prune a) = u' at hpruned ⊢
  cases hpruned with
  | mk hj =>
    rw [hR hj]
    rfl

variable [DecidableEq κ] {op : Operation κ}

/-- An operation and a pruning may change places, if what the operation stamps is past
what is pruned. -/
theorem apply_prune (h : op.Stamps → a < w.journal.now) :
    op.apply (w.prune a) = (op.apply w).prune a := by
  have hkept := Journal.kept_prunedBehind a
  have hstamps : op.Stamps → w.UpToJournal (Journal.PrunedBehind a) (w.prune a) :=
    fun hop => .mk ⟨h hop, rfl⟩
  have hsilent : w.UpToJournal (fun j j' => j' = j.prune a) (w.prune a) := .mk rfl
  cases op with
  | spawn => exact after_prune And.right ((hstamps trivial).spawn hkept)
  | claim i => exact after_prune And.right ((hstamps trivial).claim hkept i)
  | kill e => exact after_prune And.right ((hstamps trivial).kill hkept e)
  | add k e v => exact after_prune And.right ((hstamps trivial).add hkept k e v)
  | emplace k e make => exact after_prune And.right ((hstamps trivial).emplace hkept k e make)
  | remove k e => exact after_prune And.right ((hstamps trivial).remove hkept k e)
  | markDirty k e => exact after_prune And.right ((hstamps trivial).markDirty hkept k e)
  | restore s => exact after_prune And.right ((hstamps trivial).restore hkept s)
  | register k => exact after_prune id (hsilent.registerWith k none)
  | registerSynced k codec => exact after_prune id (hsilent.registerWith k (some codec))
  | edit k e f => exact after_prune id (hsilent.edit k e f)
  | editAt k i f => exact after_prune id (hsilent.modifyColumn k _)
  | editAll k f => exact after_prune id (hsilent.modifyColumn k _)
  | bindLabel id e => exact after_prune (fun h => h) (hsilent.onLabels e (Labels.bind id e))
  | createLabel name e => exact after_prune id (hsilent.onLabels e (Labels.createAndBind name e))
  | nameLabel name => rfl
  | unbindLabels e => rfl
  | setVersion v => rfl
  | prune v => exact congrArg (fun j => { w with journal := j }) (w.journal.prune_comm a v)
  | forget x => exact congrArg (fun j => { w with journal := j }) (w.journal.prune_forget a x)

/-- A run and a pruning may change places, if all that the run stamps is past what is
pruned. -/
theorem run_prune {ops : List (Operation κ)}
    (h : Along (fun u op => op.Stamps → a < u.journal.now) w ops) :
    (w.prune a).run ops = (w.run ops).prune a := by
  induction ops generalizing w with
  | nil => rfl
  | cons op ops ih => rw [run_cons, run_cons, apply_prune h.1, ih h.2]

/-- **Pruning goes unnoticed.** It drops all stamps up to a version and no other, each of
them is counted once, and pruning again drops what pruning once up to the later of
the versions would have dropped. Changes are captured as before by those who have that
version, and the journal tells them of the same comings and goings. Whatever is done
with later stamps, the same comes of it before the pruning and after it. -/
theorem prune_unnoticed (j : Journal) (w : World κ) (a : Nat) :
    j.PrunedTo a (j.prune a) (j.pruneCount a) ∧
    (∀ b, (j.prune a).prune b = j.prune (max a b) ∧
      j.pruneCount a + (j.prune a).pruneCount b = j.pruneCount (max a b)) ∧
    (∀ v, a ≤ v → (w.prune a).captureSince v = w.captureSince v ∧
      (w.prune a).journal.Shares (v < ·) w.journal) ∧
    ∀ ops, w.Along (fun u op => op.Stamps → a < u.journal.now) ops →
      (w.prune a).run ops = (w.run ops).prune a := by
  refine ⟨j.prunedTo_prune a, fun b => ⟨j.prune_prune a b, j.pruneCount_add a b⟩, ?_,
    fun ops hops => run_prune hops⟩
  intro v hv
  have hshares : (w.prune a).journal.Shares (v < ·) w.journal :=
    (Journal.Shares.refl _ w.journal).prune fun u hu => hv.trans_lt (of_decide_eq_true hu)
  have hworld : w.Shares (v < ·) (w.prune a) := .mk hshares.symm
  exact ⟨(hworld.captureSince_eq fun _ hu => decide_eq_true hu).symm, hshares⟩

/-- Who knows of the particle needs no stamps of it when it makes room for another. -/
theorem prune_unnoticed_oneParticle :
    oneParticle.journal.pruneCount 0 = 2 ∧
    (oneParticle.prune 0).captureSince 0 = oneParticle.captureSince 0 ∧
    (oneParticle.prune 0).run (.setVersion 1 :: succession) = succeeded.prune 0 := by
  have hops : oneParticle.Along (fun u op => op.Stamps → 0 < u.journal.now)
      (.setVersion 1 :: succession) := by
    refine ⟨fun h => h.elim, ?_⟩
    refine ⟨?_, ?_, ?_, ?_, ?_, trivial⟩ <;> exact fun _ => by decide +kernel
  obtain ⟨-, -, hlater, hrun⟩ := prune_unnoticed oneParticle.journal oneParticle 0
  exact ⟨by decide +kernel, (hlater 0 (Nat.le_refl 0)).1, hrun _ hops⟩

end World
end EntityWorld
