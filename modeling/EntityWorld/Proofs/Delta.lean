/-
# Change captures are complete

A peer that has a world's components as they were (`P`) learns of a later world
`Q` by three things: the change capture since some version, and the stamps of
removals and of destroyed entities after that version. `World.replica?` is what
the peer makes of them, and `ReachableBy.payload?_run_eq` says that this is what
`Q` has, for every entity and every tag, whatever happened in between and in
whatever order.

On the way from `P` to `Q` every component is accounted for (`Accounted`): the
stamps tell of it, or it is as it was in `P`, or it was edited in place and the
record of that is still to come. The first is never lost again, the second is
lost only to one of the others, and the third ends at the record.

Key definitions: `World.replica?`, `Operation.Traced`, `EditsMarked`,
`World.Tracks`.
Key theorems: `World.Tracks.change`, `World.Tracks.apply`,
`World.ReachableBy.payload?_run_eq`.
-/
import EntityWorld.Proofs.Capture
import EntityWorld.Proofs.Stamps
import Mathlib.Tactic

namespace EntityWorld

variable {κ : Type} [Family κ]

/-- The component of an entity in `w`, as a peer sees it that has `P` and learns
what changed after version `v`. -/
def World.replica? (w P : World κ) (v : Nat) (e : Handle) (t : TypeTag) : Option (List UInt8) :=
  if w.journal.writtenSince v e t then (w.captureSince v).dataAt? e.index t
  else if w.journal.goneSince v e t then none
  else P.payload? e t

/-- The stamps after version `v` tell of the operation all that matters to a peer
that has `P`. An edit in place is told of by the record that follows it; an edit
of a column is not, nor is a codec for a kind that `P` has without one. -/
def Operation.Traced [DecidableEq κ] (P : World κ) (v : Nat) : Operation κ → Prop
  | .setVersion u => v < u
  | .prune a => a ≤ v
  | .registerSynced k _ => P.isRegistered k → (P.synced? (tagOf k)).isSome
  | .editAt .. | .editAll .. | .forget _ => False
  | _ => True

/-- Every edit in place is recorded later on. -/
def EditsMarked : List (Operation κ) → Prop
  | [] => True
  | .edit k e _ :: ops => .markDirty k e ∈ ops ∧ EditsMarked ops
  | _ :: ops => EditsMarked ops

theorem EditsMarked.tail {op : Operation κ} {ops : List (Operation κ)}
    (h : EditsMarked (op :: ops)) : EditsMarked ops := by
  cases op with
  | edit => exact h.2
  | _ => exact h

variable [DecidableEq κ]

namespace World

/-- What became of a component since `P` is known, or will be: `pending` are the
records still to come. -/
inductive Accounted (P : World κ) (v : Nat) (pending : κ → Handle → Prop) (w : World κ)
    (e : Handle) (t : TypeTag) : Prop
  | told : w.journal.Tells v e t → Accounted P v pending w e t
  | kept : w.payload? e t = P.payload? e t → (w.Has e t → P.Has e t) → Accounted P v pending w e t
  | awaited {k : κ} : tagOf k = t → w.isRegistered k → pending k e → w.Has e t →
      Accounted P v pending w e t

/-- A world on its way from `P`: every component is accounted for. -/
structure Tracks (P : World κ) (v : Nat) (pending : κ → Handle → Prop) (w : World κ) : Prop where
  wellFormed : w.WellFormed
  now : v < w.journal.now
  spent : w.Spent
  keepsKinds : P.KeepsKinds w
  accounted : ∀ e t, Accounted P v pending w e t

variable {P w w' : World κ} {v : Nat} {pending : κ → Handle → Prop} {op : Operation κ}
  {e : Handle} {t : TypeTag}

theorem KeepsKinds.isRegistered (h : w.KeepsKinds w') (hw : w.TagsDistinct) {k : κ}
    (hk : w.isRegistered k) : w'.isRegistered k := by
  obtain ⟨c, codec, hr⟩ := exists_ofTag?_tagOf hw hk
  obtain ⟨r', hr', hkeeps⟩ := h (tagOf k) _ hr
  exact isRegistered_iff.mpr ⟨r', mem_of_ofTag? hr', hkeeps.kind_eq⟩

theorem Accounted.of_unchanged (h : Accounted P v pending w e t) (hu : Unchanged w w' e t)
    (htold : w.journal.Tells v e t → w'.journal.Tells v e t)
    (hkinds : ∀ k, w.isRegistered k → w'.isRegistered k) : Accounted P v pending w' e t := by
  cases h with
  | told ht => exact .told (htold ht)
  | kept hp hh => exact .kept (hu.payload?_eq.trans hp) fun h => hh (hu.has_iff.mp h)
  | awaited hk hreg hpend hhas => exact .awaited hk (hkinds _ hreg) hpend (hu.has_iff.mpr hhas)

/-- A codec is given to a kind without one: `P` did not have the kind, so what
there is of it has been told of. -/
theorem Tracks.accounted_offer (h : Tracks P v pending w) {k : κ} (codec : Codec (Value k))
    (hop : P.isRegistered k → (P.synced? (tagOf k)).isSome) (e : Handle) (t : TypeTag) :
    Accounted P v pending (w.offer k (some codec)) e t := by
  have hkinds : ∀ k', w.isRegistered k' → (w.offer k (some codec)).isRegistered k' := by
    have hkeeps : w.KeepsKinds (w.offer k (some codec)) :=
      Change.keepsKinds (.offer (w := w) codec)
    exact fun k' => hkeeps.isRegistered h.wellFormed.tagsDistinct
  by_cases hs : t = tagOf k → w.isRegistered k → (w.synced? t).isSome
  · exact (h.accounted e t).of_unchanged (unchanged_offer (some codec) hs) id hkinds
  · obtain ⟨rfl, hs⟩ := Classical.not_imp.mp hs
    obtain ⟨hk, hnone⟩ := Classical.not_imp.mp hs
    -- else `P` had it with a codec, which it would have kept
    have hP : P.ofTag? (tagOf k) = none := by
      by_contra hsome
      obtain ⟨r, hr⟩ := Option.ne_none_iff_exists'.mp hsome
      obtain ⟨r', hr', hkeeps⟩ := h.keepsKinds _ r hr
      obtain ⟨c, own, hown⟩ := exists_ofTag?_tagOf h.wellFormed.tagsDistinct hk
      rw [hr'] at hown
      cases hown
      have hreg : P.isRegistered k :=
        isRegistered_iff.mpr ⟨r, mem_of_ofTag? hr, hkeeps.kind_eq.symm⟩
      exact hnone (h.keepsKinds.isSome_synced? (hop hreg))
    have hPhas : ¬ P.Has e (tagOf k) := by
      rintro ⟨-, hh⟩
      rw [holds, hP] at hh
      cases hh
    cases h.accounted e (tagOf k) with
    | told ht => exact .told ht
    | kept hp hh =>
      have hwhas : ¬ (w.offer k (some codec)).Has e (tagOf k) :=
        fun hhas => hPhas (hh ((has_offer_iff _).mp hhas))
      refine .kept ?_ fun hhas => absurd hhas hwhas
      rw [payload?_eq_none hwhas, payload?_eq_none hPhas]
    | awaited hk' hreg hpend hhas =>
      exact .awaited hk' (hkinds _ hreg) hpend ((has_offer_iff _).mpr hhas)

/-- Each change keeps account of every component. -/
theorem Tracks.change (h : Tracks P v pending w) (hc : Change op w w') (hop : op.Traced P v)
    (hlast : ∀ e, op = .kill e → e.generation ≠ 0xffffffff)
    (hedit : ∀ k e f, op = .edit k e f → pending k e) : Tracks P v pending w' := by
  have hw := h.wellFormed
  have hnow := h.now
  have hstamps : op.KeepsStamps v := by
    cases op with
    | editAt | editAll | forget => exact hop.elim
    | setVersion | prune => exact hop
    | _ => trivial
  obtain ⟨hnow', hmono⟩ := hc.tells_mono hstamps hnow
  have hkinds : ∀ k, w.isRegistered k → w'.isRegistered k :=
    fun k => hc.keepsKinds.isRegistered hw.tagsDistinct
  refine ⟨hc.wellFormed hw, hnow', hc.spent hlast h.spent, h.keepsKinds.trans hc.keepsKinds, ?_⟩
  intro e t
  have hold := h.accounted e t
  have hstill : Unchanged w w' e t → Accounted P v pending w' e t :=
    fun hu => hold.of_unchanged hu (hmono e t) hkinds
  cases hc with
  | enter he => exact hstill (unchanged_enter hw he)
  | @leave _ e₀ pool he =>
    -- whoever lived there has gone with all components, and that is stamped
    by_cases hs : e = e₀
    · exact .told ((Journal.tells_recordDestruction hnow).mpr (Or.inl hs))
    · exact hstill (unchanged_leave he hs)
  | @write _ _ k e₀ o hk he =>
    by_cases hs : e = e₀ ∧ t = tagOf k
    · exact .told ((Journal.tells_recordUpdate hnow).mpr (Or.inl hs))
    · exact hstill (unchanged_write hw.tagsDistinct hk he o hs)
  | @discard _ k e₀ hk he =>
    -- a removal leaves a stamp only where something was removed
    by_cases hs : (e = e₀ ∧ t = tagOf k) ∧ w.Has e t
    · obtain ⟨⟨rfl, rfl⟩, hhas⟩ := hs
      have hg : (w.get? k e).isSome := (holds_iff_get? hw.tagsDistinct hk he).symm.trans hhas.2
      refine .told ?_
      simp only [World.discard, hg, if_true]
      exact (Journal.tells_recordRemoval hnow).mpr (Or.inl ⟨rfl, rfl⟩)
    · exact hstill (unchanged_discard hw.tagsDistinct hk he fun hown hhas => hs ⟨hown, hhas⟩)
  | stamp => exact hstill ⟨rfl, Iff.rfl⟩
  | @edit _ k e₀ f hk hg =>
    have he : w.isAlive e₀ := isAlive_of_get? hg
    by_cases hs : e = e₀ ∧ t = tagOf k
    · obtain ⟨rfl, rfl⟩ := hs
      have hhas : w.Has e (tagOf k) := ⟨he, (holds_iff_get? hw.tagsDistinct hk he).trans hg⟩
      exact .awaited rfl (hkinds k hk) (hedit k e f rfl) ((has_edit_iff f).mpr hhas)
    · exact hstill (unchanged_edit he f hs)
  | editAt | editAll | forget => exact hop.elim
  | enroll codec => exact hstill (unchanged_enroll codec)
  | offer codec => exact h.accounted_offer codec hop e t
  | relabel => exact hstill ⟨rfl, Iff.rfl⟩
  | setVersion => exact hstill ⟨rfl, Iff.rfl⟩
  | prune => exact hstill ⟨rfl, Iff.rfl⟩

/-! ### Operations -/

/-- A record tells of the component that it is for, if that is there. -/
theorem tells_markDirty (hw : w.WellFormed) (hv : v < w.journal.now) {k : κ}
    (hk : ((Operation.markDirty k e).apply w).isRegistered k)
    (hh : ((Operation.markDirty k e).apply w).Has e (tagOf k)) :
    ((Operation.markDirty k e).apply w).journal.Tells v e (tagOf k) := by
  have hcases : (Operation.markDirty k e).apply w = w ∨
      (Operation.markDirty k e).apply w = w.stamp k e := by
    simp only [Operation.apply, after, markDirty_eq]
    cases w.refusal? k e with
    | some cause => exact Or.inl rfl
    | none =>
      cases (w.get? k e).isSome
      · exact Or.inl rfl
      · exact Or.inr rfl
  obtain ⟨hreg, hhas⟩ : w.isRegistered k ∧ w.Has e (tagOf k) := by
    rcases hcases with h | h
    · rw [h] at hk hh
      exact ⟨hk, hh⟩
    · rw [h] at hk hh
      exact ⟨hk, hh⟩
  have hg : (w.get? k e).isSome := (holds_iff_get? hw.tagsDistinct hreg hhas.1).symm.trans hhas.2
  have hok : markDirty k e w = .ok true (w.stamp k e) := by
    rw [markDirty_eq, refusal?_eq_none_iff.mpr ⟨hreg, hhas.1⟩]
    exact if_pos hg
  have happly : (Operation.markDirty k e).apply w = w.stamp k e := after_of_ok hok
  rw [happly]
  exact (Journal.tells_recordUpdate hv).mpr (Or.inl ⟨rfl, rfl⟩)

/-- An operation keeps account, and what was awaited of it is told. -/
theorem Tracks.apply {ops : List (Operation κ)}
    (h : Tracks P v (fun k e => .markDirty k e ∈ op :: ops) w) (hop : op.Traced P v)
    (hnames : op.KeepsNames w) (hmarked : EditsMarked (op :: ops)) :
    Tracks P v (fun k e => .markDirty k e ∈ ops) (op.apply w) := by
  have hedit : ∀ k e f, op = .edit k e f → .markDirty k e ∈ op :: ops := by
    rintro k e f rfl
    exact List.mem_cons_of_mem _ hmarked.1
  have hnext : Tracks P v (fun k e => .markDirty k e ∈ op :: ops) (op.apply w) := by
    rcases apply_eq_or_of_keepsNames hnames with hsame | hlast
    · rw [hsame]
      exact h
    · exact Change.keeps_row (fun hc ht => Tracks.change ht hc hop hlast hedit)
        (Change.row_apply op h.wellFormed.pool) h
  refine { hnext with accounted := fun e t => ?_ }
  cases hnext.accounted e t with
  | told ht => exact .told ht
  | kept hp hh => exact .kept hp hh
  | @awaited k hk hreg hpend hhas =>
    subst hk
    -- the record awaited is this operation, or one that is still to come
    rcases List.mem_cons.mp hpend with rfl | hrest
    · exact .told (tells_markDirty h.wellFormed h.now hreg hhas)
    · exact .awaited rfl hreg hrest hhas

/-! ### Runs -/

/-- At the end of a run nothing is awaited any more. -/
theorem Tracks.run {ops : List (Operation κ)} (h : Tracks P v (fun k e => .markDirty k e ∈ ops) w)
    (hops : ∀ op ∈ ops, op.Traced P v) (hmarked : EditsMarked ops)
    (hnames : Along Operation.KeepsNames w ops) :
    Tracks P v (fun _ _ => False) (w.run ops) := by
  induction ops generalizing w with
  | nil => simpa using h
  | cons op ops ih =>
    have hnext := h.apply (hops op List.mem_cons_self) hnames.1 hmarked
    exact ih hnext (fun op' hop' => hops op' (List.mem_cons_of_mem op hop')) hmarked.tail hnames.2

omit [DecidableEq κ] in
/-- What a peer makes of the changes is what there is, if the destroyed are gone
and what the stamps do not tell of is as it was. -/
theorem WellFormed.payload?_eq_replica? (hw : w.WellFormed)
    (hdestroyed : ¬ w.journal.writtenSince v e t → (w.journal.destroyedAt? e).any (v < ·) →
      w.payload? e t = none)
    (hkept : ¬ w.journal.Tells v e t → w.payload? e t = P.payload? e t) :
    w.payload? e t = w.replica? P v e t := by
  unfold replica?
  split
  · next hwritten =>
    have hsome : (w.journal.updatedAt? e t).isSome := Option.isSome_of_any hwritten
    have he := hw.isAlive_of_updated e t hsome
    have hdata : (w.captureSince v).dataAt? e.index t =
        if (w.journal.updatedAt? e t).any (v < ·) then w.bytes? e.slot t else none :=
      dataAt?_captureWhere hw he
    rw [payload?_of_isAlive he]
    exact (hdata.trans (if_pos hwritten)).symm
  · next hwritten =>
    split
    · next hgone =>
      rcases Bool.or_eq_true_iff.mp hgone with hd | hr
      · exact hdestroyed hwritten hd
      · refine payload?_eq_none fun hhas => ?_
        have hno := (hw.of_removed e t (Option.isSome_of_any hr)).2
        exact Bool.false_ne_true (hno.symm.trans hhas.2)
    · next hgone => exact hkept fun ht => ht.elim hwritten hgone

/-- What the peer makes of the changes is what there is. -/
theorem Tracks.payload?_eq (h : Tracks P v (fun _ _ => False) w) (e : Handle) (t : TypeTag) :
    w.payload? e t = w.replica? P v e t := by
  refine h.wellFormed.payload?_eq_replica? (fun _ hd => ?_) fun htold => ?_
  · have hdead := h.spent.not_isAlive (Option.isSome_of_any hd)
    exact payload?_of_not_isAlive hdead
  · cases h.accounted e t with
    | told ht => exact (htold ht).elim
    | kept hp hh => exact hp
    | awaited _ _ hpend _ => exact hpend.elim

/-- **Change captures are complete.** From a reachable world `P`, set the clock to
a version after `v` and let anything happen that the stamps after `v` trace.
Every component of every entity is then what a peer makes of `P`, the change
capture since `v` and the stamps after `v`. -/
theorem ReachableBy.payload?_run_eq (hP : ReachableBy Operation.KeepsNames P) {v u : Nat}
    (hu : v < u) {ops : List (Operation κ)} (hops : ∀ op ∈ ops, op.Traced P v)
    (hmarked : EditsMarked ops) (hnames : Along Operation.KeepsNames (P.setVersion u) ops)
    (e : Handle) (t : TypeTag) :
    (P.run (.setVersion u :: ops)).payload? e t =
      (P.run (.setVersion u :: ops)).replica? P v e t := by
  have hstart : Tracks P v (fun k e => .markDirty k e ∈ ops) (P.setVersion u) := by
    refine ⟨?_, hu, hP.spent, .refl P, fun e t => .kept rfl id⟩
    exact Change.wellFormed (.setVersion u) hP.wellFormed
  exact (hstart.run hops hmarked hnames).payload?_eq e t

/-- A world with one entity, a particle. -/
def oneParticle : World (Stocked Empty) :=
  run {} [.registerSynced .particle Particle.codec, .spawn, .add .particle ⟨0, 0⟩ {}]

/-- The particle goes, another one takes its slot and is edited. -/
def succession : List (Operation (Stocked Empty)) :=
  [.kill ⟨0, 0⟩, .spawn, .add .particle ⟨0, 1⟩ {},
    .edit .particle ⟨0, 1⟩ (fun p : Particle => { p with lifetime := 1 }),
    .markDirty .particle ⟨0, 1⟩]

/-- The world after that, at version 1. -/
def succeeded : World (Stocked Empty) := oneParticle.run (.setVersion 1 :: succession)

/-- A peer does not take the one particle for the other. -/
theorem payload?_succeeded :
    succeeded.payload? ⟨0, 1⟩ (tagOf (Stocked.particle : Stocked Empty)) =
      succeeded.replica? oneParticle 0 ⟨0, 1⟩ (tagOf (Stocked.particle : Stocked Empty)) ∧
    succeeded.payload? ⟨0, 0⟩ (tagOf (Stocked.particle : Stocked Empty)) =
      succeeded.replica? oneParticle 0 ⟨0, 0⟩ (tagOf (Stocked.particle : Stocked Empty)) := by
  have hP : ReachableBy Operation.KeepsNames oneParticle :=
    ReachableBy.run (.start (s := {}) rfl) ⟨trivial, trivial, trivial, trivial⟩
  have hops : ∀ op ∈ succession, op.Traced oneParticle 0 := by
    simp [succession, Operation.Traced]
  have hmarked : EditsMarked succession := ⟨List.mem_cons_self, trivial⟩
  have hnames : Along Operation.KeepsNames (oneParticle.setVersion 1) succession :=
    ⟨fun _ => by decide, trivial, trivial, trivial, trivial, trivial⟩
  exact ⟨hP.payload?_run_eq Nat.zero_lt_one hops hmarked hnames _ _,
    hP.payload?_run_eq Nat.zero_lt_one hops hmarked hnames _ _⟩

end World
end EntityWorld
