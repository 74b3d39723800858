/-
# The journal agrees with the world

What the journal has a stamp of is so: a component written is there, one removed
is not, an entity destroyed came and went. As long as no stamp is dropped the
converse holds too, and the journal is a list of all that there is
(`World.RecordedInFull`). Both are one invariant (`World.Noted`), in which what
is stamped and what is so are compared in one direction or in both
(`Tallies`), and each operation adds to the two sides, or takes from them, alike.

Who came and who went is told by the chronicle of the run, so that what the
journal has of entities is compared with what happened and not with who is alive.

Key definitions: `Tallies`, `World.Noted`, `World.Recorded`,
`World.RecordedInFull`.
Key theorems: `World.Noted.operate`, `World.recorded_run`.
-/
import EntityWorld.Proofs.Chronicle
import EntityWorld.Proofs.Stamps
import Mathlib.Tactic

namespace EntityWorld

/-! ### Tallies -/

/-- What is noted is so, and if the notes are complete, what is so is noted. -/
def Tallies (complete noted so : Prop) : Prop := (noted → so) ∧ (complete → so → noted)

namespace Tallies

variable {c a b a' b' x : Prop}

theorem congr (h : Tallies c a b) (ha : a' ↔ a) (hb : b' ↔ b) : Tallies c a' b' :=
  ⟨fun h' => hb.mpr (h.1 (ha.mp h')), fun hc h' => ha.mpr (h.2 hc (hb.mp h'))⟩

/-- One more on both sides. -/
theorem or (h : Tallies c a b) (ha : a' ↔ x ∨ a) (hb : b' ↔ x ∨ b) : Tallies c a' b' :=
  ⟨fun h' => hb.mpr ((ha.mp h').imp_right h.1),
    fun hc h' => ha.mpr ((hb.mp h').imp_right (h.2 hc))⟩

/-- One less on both sides. -/
theorem and (h : Tallies c a b) (ha : a' ↔ x ∧ a) (hb : b' ↔ x ∧ b) : Tallies c a' b' :=
  ⟨fun h' => hb.mpr ((ha.mp h').imp_right h.1),
    fun hc h' => ha.mpr ((hb.mp h').imp_right (h.2 hc))⟩

/-- Notes may be lost if they need not be complete. -/
theorem drop (h : Tallies c a b) (ha : a' → a) (hc : ¬ c) : Tallies c a' b :=
  ⟨fun h' => h.1 (ha h'), fun h' => absurd h' hc⟩

end Tallies

namespace Journal

variable {j : Journal} {e : Handle}

theorem createdAt?_prune (a : Nat) :
    (j.prune a).createdAt? e = (j.createdAt? e).filter (a < ·) := by
  simp [createdAt?, prune, Std.ExtTreeMap.getElem?_filter]

theorem isSome_createdAt?_of_forget {x : Key} (h : ((j.forget x).createdAt? e).isSome) :
    (j.createdAt? e).isSome := by
  cases x with
  | created e' =>
    simp only [forget, forgetCreation, createdAt?, Std.ExtTreeMap.getElem?_erase] at h
    split at h
    · cases h
    · exact h
  | _ => exact h

end Journal

theorem isSome_ite {α : Type} {p : Prop} [Decidable p] {a : α} {o : Option α} :
    (if p then some a else o).isSome ↔ p ∨ o.isSome := by
  split <;> simp_all

theorem isSome_ite_none {α : Type} {p : Prop} [Decidable p] {o : Option α} :
    (if p then none else o).isSome ↔ ¬ p ∧ o.isSome := by
  split <;> simp_all

variable {κ : Type} [Family κ] [DecidableEq κ]

namespace World

variable {w : World κ} {e e' : Handle} {t : TypeTag} {k : κ} {pool : SlotPool}

/-! ### What there is after a change -/

omit [DecidableEq κ] in
theorem mem_typesOf_iff (hw : w.TagsDistinct) : t ∈ w.typesOf e ↔ w.Has e t := by
  unfold typesOf Has
  by_cases he : w.isAlive e
  · rw [if_pos he]
    simp only [he, true_and, List.mem_map, List.mem_filter]
    constructor
    · rintro ⟨r, ⟨hr, hc⟩, rfl⟩
      rw [holds_of_mem hw hr, hc]
    · intro hh
      unfold holds at hh
      cases hr : w.ofTag? t with
      | none =>
        rw [hr] at hh
        cases hh
      | some r =>
        rw [hr] at hh
        exact ⟨r, ⟨mem_of_ofTag? hr, hh⟩, tag_of_ofTag? hr⟩
  · rw [if_neg he]
    simp [he]

omit [DecidableEq κ] in
theorem has_leave_iff (he : w.pool.Leaves e pool) :
    (w.leave e pool).Has e' t ↔ e' ≠ e ∧ w.Has e' t := by
  by_cases hs : e' = e
  · have hdead : ¬ (w.leave e pool).isAlive e' := fun h => (he.isAlive_iff.mp h).1 hs
    exact iff_of_false (fun h => hdead h.1) fun h => h.1 hs
  · rw [(unchanged_leave he hs).has_iff]
    exact (and_iff_right hs).symm

theorem has_write_iff (hw : w.TagsDistinct) (hk : w.isRegistered k) (he : w.isAlive e)
    (v : Value k) : (w.write k e (some v)).Has e' t ↔ (e' = e ∧ t = tagOf k) ∨ w.Has e' t := by
  by_cases hs : e' = e ∧ t = tagOf k
  · obtain ⟨rfl, rfl⟩ := hs
    refine iff_of_true ⟨he, ?_⟩ (Or.inl ⟨rfl, rfl⟩)
    rw [holds_write hw hk, if_pos ⟨rfl, rfl⟩]
    rfl
  · rw [(unchanged_write hw hk he (some v) hs).has_iff]
    exact (or_iff_right hs).symm

theorem has_discard_iff (hw : w.TagsDistinct) (hk : w.isRegistered k) (he : w.isAlive e) :
    (w.discard k e).Has e' t ↔ ¬ (e' = e ∧ t = tagOf k) ∧ w.Has e' t := by
  by_cases hs : e' = e ∧ t = tagOf k
  · obtain ⟨rfl, rfl⟩ := hs
    refine iff_of_false (fun h => ?_) fun h => h.1 ⟨rfl, rfl⟩
    have hh := h.2
    rw [holds_discard hw hk, if_pos ⟨rfl, rfl⟩] at hh
    cases hh
  · rw [(unchanged_discard hw hk he fun h => absurd h hs).has_iff]
    exact (and_iff_right hs).symm

/-! ### What is noted is so -/

/-- The journal's notes of components and entities are so, and are complete if
`complete` is. -/
structure Noted (complete : Prop) (w : World κ) (xs : List Event) : Prop where
  updated : ∀ e t, Tallies complete (w.journal.updatedAt? e t).isSome (w.Has e t)
  created : ∀ e, Tallies complete (w.journal.createdAt? e).isSome (.begun e ∈ xs)
  destroyed : ∀ e, Tallies complete (w.journal.destroyedAt? e).isSome (.ended e ∈ xs)

namespace Noted

variable {complete : Prop} {w' : World κ} {xs : List Event}

omit [DecidableEq κ] in
/-- A change of nothing that is noted. -/
theorem quiet (h : Noted complete w xs) (hj : ∃ v, w'.journal = { w.journal with now := v })
    (hh : ∀ e t, w'.Has e t ↔ w.Has e t) : Noted complete w' xs := by
  obtain ⟨v, hv⟩ := hj
  refine ⟨fun e t => (h.updated e t).congr ?_ (hh e t), fun e => ?_, fun e => ?_⟩
  · rw [hv]
    rfl
  · rw [hv]
    exact h.created e
  · rw [hv]
    exact h.destroyed e

omit [DecidableEq κ] in
theorem enter (h : Noted complete w xs) (hw : w.WellFormed) (he : w.pool.Enters e pool) :
    Noted complete (w.enter e pool) (xs ++ [.begun e]) := by
  refine ⟨fun e' t => ?_, fun e' => ?_, fun e' => ?_⟩
  · exact (h.updated e' t).congr Iff.rfl (unchanged_enter hw he).has_iff
  · refine (h.created e').or (x := e' = e) ?_ ?_
    · change ((w.journal.recordCreation e).createdAt? e').isSome ↔ _
      rw [Journal.createdAt?_recordCreation, isSome_ite]
    · simp [or_comm]
  · exact (h.destroyed e').congr Iff.rfl (by simp)

omit [DecidableEq κ] in
theorem leave (h : Noted complete w xs) (he : w.pool.Leaves e pool) :
    Noted complete (w.leave e pool) (xs ++ [.ended e]) := by
  refine ⟨fun e' t => ?_, fun e' => ?_, fun e' => ?_⟩
  · refine (h.updated e' t).and (x := e' ≠ e) ?_ (has_leave_iff he)
    change ((w.journal.recordDestruction e).updatedAt? e' t).isSome ↔ _
    rw [Journal.updatedAt?_recordDestruction, isSome_ite_none]
  · exact (h.created e').congr Iff.rfl (by simp)
  · refine (h.destroyed e').or (x := e' = e) ?_ ?_
    · change ((w.journal.recordDestruction e).destroyedAt? e').isSome ↔ _
      rw [Journal.destroyedAt?_recordDestruction, isSome_ite]
    · simp [or_comm]

theorem write (h : Noted complete w xs) (hw : w.WellFormed) (hk : w.isRegistered k)
    (he : w.isAlive e) (v : Value k) : Noted complete (w.write k e (some v)) xs := by
  refine ⟨fun e' t => ?_, h.created, h.destroyed⟩
  refine (h.updated e' t).or ?_ (has_write_iff hw.tagsDistinct hk he v)
  change ((w.journal.recordUpdate e (tagOf k)).updatedAt? e' t).isSome ↔ _
  rw [Journal.updatedAt?_recordUpdate, isSome_ite]

/-- A record of a component that is there adds to the notes only. -/
theorem stamp (h : Noted complete w xs) (hw : w.WellFormed) (hk : w.isRegistered k)
    (hg : (w.get? k e).isSome) : Noted complete (w.stamp k e) xs := by
  have he : w.isAlive e := isAlive_of_get? hg
  have hhas : w.Has e (tagOf k) := ⟨he, (holds_iff_get? hw.tagsDistinct hk he).trans hg⟩
  refine ⟨fun e' t => ?_, h.created, h.destroyed⟩
  refine (h.updated e' t).or (x := e' = e ∧ t = tagOf k) ?_ ?_
  · change ((w.journal.recordUpdate e (tagOf k)).updatedAt? e' t).isSome ↔ _
    rw [Journal.updatedAt?_recordUpdate, isSome_ite]
  · change w.Has e' t ↔ _
    refine ⟨Or.inr, ?_⟩
    rintro (⟨rfl, rfl⟩ | hold)
    · exact hhas
    · exact hold

/-- Taking away what is not there changes nothing, and the journal does not hear of
it either. -/
theorem discard (h : Noted complete w xs) (hw : w.WellFormed) (hk : w.isRegistered k)
    (he : w.isAlive e) : Noted complete (w.discard k e) xs := by
  have hsame : (w.discard k e).journal.created = w.journal.created ∧
      (w.discard k e).journal.destroyed = w.journal.destroyed := by
    simp only [World.discard]
    split <;> exact ⟨rfl, rfl⟩
  refine ⟨fun e' t => ?_, fun e' => ?_, fun e' => ?_⟩
  · refine (h.updated e' t).and ?_ (has_discard_iff hw.tagsDistinct hk he)
    simp only [World.discard]
    split
    · rw [Journal.updatedAt?_recordRemoval, isSome_ite_none]
    · next hg =>
      -- there is no note of it, as it is not there
      refine (and_iff_right_of_imp fun hnote => ?_).symm
      rintro ⟨rfl, rfl⟩
      have hhas := (h.updated e' (tagOf k)).1 hnote
      exact hg ((holds_iff_get? hw.tagsDistinct hk he).symm.trans hhas.2)
  · rw [Journal.createdAt?, hsame.1]
    exact h.created e'
  · rw [Journal.destroyedAt?, hsame.2]
    exact h.destroyed e'

omit [DecidableEq κ] in
/-- Notes are dropped that need not be complete. -/
theorem drop (h : Noted complete w xs) (hc : ¬ complete) {j : Journal}
    (hu : ∀ e t, (j.updatedAt? e t).isSome → (w.journal.updatedAt? e t).isSome)
    (hb : ∀ e, (j.createdAt? e).isSome → (w.journal.createdAt? e).isSome)
    (hd : ∀ e, (j.destroyedAt? e).isSome → (w.journal.destroyedAt? e).isSome) :
    Noted complete { w with journal := j } xs :=
  ⟨fun e t => (h.updated e t).drop (hu e t) hc, fun e => (h.created e).drop (hb e) hc,
    fun e => (h.destroyed e).drop (hd e) hc⟩

end Noted

end World

/-! ### Runs -/

namespace Operation

/-- The operation makes what it is to make. -/
def Fulfilled : Operation κ → Prop
  | emplace _ _ make => (make ()).isSome
  | _ => True

/-- The operation drops no stamp. -/
def KeepsRecords : Operation κ → Prop
  | prune _ | forget _ => False
  | _ => True

end Operation

namespace World.Noted

variable {w : World κ} {complete : Prop} {xs : List Event}

/-- A replay notes what it restores and whom it lets in. -/
theorem replay (h : Noted complete w xs) (hw : w.WellFormed) {entries : List SnapshotEntry}
    (hr : ∀ x ∈ entries, w.Replayable x) :
    Noted complete (w.replay entries) (xs ++ (w.newcomers entries).map .begun) := by
  have henter : ∀ {es : List Handle} {u : World κ} {e : Handle} {pool : SlotPool},
      u.WellFormed ∧ Noted complete u (xs ++ es.map .begun) → u.pool.Enters e pool →
        pool.WellFormed → (u.enter e pool).WellFormed ∧
          Noted complete (u.enter e pool) (xs ++ (es ++ [e]).map .begun) := by
    intro es u e pool ⟨hu, hn⟩ he hp
    rw [List.map_append, ← List.append_assoc]
    exact ⟨hu.enter he hp, hn.enter hu he⟩
  have hstart : w.WellFormed ∧ Noted complete w (xs ++ ([] : List Handle).map .begun) := by
    rw [List.map_nil, List.append_nil]
    exact ⟨hw, h⟩
  exact (replay_induction
    (motive := fun es u => u.WellFormed ∧ Noted complete u (xs ++ es.map Event.begun))
    hw.pool hr [] hstart henter
    fun v hu hk he => ⟨hu.1.write hk he (some v), hu.2.write hu.1 hk he v⟩).2

/-- Every operation notes what it does. -/
theorem operate (h : Noted complete w xs) (hw : w.WellFormed) {op : Operation κ}
    (hmade : op.Fulfilled) (hkeeps : complete → op.KeepsRecords) :
    Noted complete (op.apply w) (xs ++ op.events w) := by
  have ho := op.outcome_apply hw.pool
  generalize op.events w = ys at ho ⊢
  generalize op.apply w = w' at ho ⊢
  have nobody : ∀ {w' : World κ}, Noted complete w' xs → Noted complete w' (xs ++ []) := by
    intro w' hn
    rwa [List.append_nil]
  cases ho with
  | spawn hs => exact h.enter hw (SlotPool.enters_of_spawn hw.pool hs)
  | claim _ hc => exact h.enter hw (SlotPool.enters_of_claim hw.pool hc).1
  | kill hk => exact h.leave (SlotPool.leaves_of_kill hk)
  | restore hr => exact h.replay hw hr
  | add hk he => exact nobody (h.write hw hk he _)
  | emplace hk he =>
    obtain ⟨v, hv⟩ := Option.isSome_iff_exists.mp hmade
    rw [hv]
    exact nobody (h.write hw hk he v)
  | remove hk he => exact nobody (h.discard hw hk he)
  | markDirty hk hg => exact nobody (h.stamp hw hk hg)
  | edit =>
    exact nobody (h.quiet ⟨_, rfl⟩ fun _ _ => has_rework_iff fun c i => Column.contains_modify c _ i _)
  | editAt =>
    exact nobody (h.quiet ⟨_, rfl⟩ fun _ _ => has_rework_iff fun c i => Column.contains_modify c _ i _)
  | editAll =>
    exact nobody (h.quiet ⟨_, rfl⟩ fun _ _ => has_rework_iff fun c i => Column.contains_map c i _)
  | register | registerSynced =>
    exact nobody (h.quiet ⟨_, rfl⟩ fun _ _ => (unchanged_enroll _).has_iff)
  | offer => exact nobody (h.quiet ⟨_, rfl⟩ fun _ _ => has_offer_iff _)
  | setVersion => exact nobody (h.quiet ⟨_, rfl⟩ fun _ _ => Iff.rfl)
  | refused => exact nobody h
  | nameLabel | bindLabel | createLabel | unbindLabels =>
    exact nobody (h.quiet ⟨_, rfl⟩ fun _ _ => Iff.rfl)
  | @prune v =>
    refine nobody (h.drop hkeeps (fun e t hn => ?_) (fun e hn => ?_) fun e hn => ?_)
    · rw [Journal.updatedAt?_prune] at hn
      exact Option.isSome_of_isSome_filter _ _ hn
    · rw [Journal.createdAt?_prune] at hn
      exact Option.isSome_of_isSome_filter _ _ hn
    · rw [Journal.destroyedAt?_prune] at hn
      exact Option.isSome_of_isSome_filter _ _ hn
  | forget =>
    exact nobody (h.drop hkeeps (fun _ _ => Journal.isSome_updatedAt?_of_forget)
      (fun _ => Journal.isSome_createdAt?_of_forget)
      fun _ => Journal.isSome_destroyedAt?_of_forget)

/-- And so does a run. -/
theorem run (h : Noted complete w xs) (hw : w.WellFormed) {ops : List (Operation κ)}
    (hmade : ∀ op ∈ ops, op.Fulfilled) (hkeeps : complete → ∀ op ∈ ops, op.KeepsRecords) :
    Noted complete (w.run ops) (xs ++ w.chronicle (ops.map .operate)) := by
  induction ops generalizing w xs with
  | nil => simpa [chronicle] using h
  | cons op ops ih =>
    have hnext := h.operate hw (hmade op List.mem_cons_self)
      fun hc => hkeeps hc op List.mem_cons_self
    have hend := ih hnext (hw.apply op) (fun o ho => hmade o (List.mem_cons_of_mem op ho))
      fun hc o ho => hkeeps hc o (List.mem_cons_of_mem op ho)
    rw [List.append_assoc] at hend
    exact hend

end World.Noted

namespace World

variable {w : World κ}

theorem noted_run {s : Settings} (hs : ofSettings? s = some w) {ops : List (Operation κ)}
    (hmade : ∀ op ∈ ops, op.Fulfilled) (complete : Prop)
    (hkeeps : complete → ∀ op ∈ ops, op.KeepsRecords) :
    Noted complete (w.run ops) (w.chronicle (ops.map .operate)) := by
  have hstart : Noted complete w [] := by
    rw [eq_of_ofSettings? hs]
    refine ⟨fun e t => ?_, fun e => ?_, fun e => ?_⟩
    · simp [Tallies, Journal.updatedAt?, Has, isAlive, SlotPool.isAlive]
    · simp [Tallies, Journal.createdAt?]
    · simp [Tallies, Journal.destroyedAt?]
  exact hstart.run (wellFormed_of_ofSettings? hs) hmade hkeeps

/-- What the journal has a stamp of is so. -/
structure Recorded (w : World κ) (xs : List Event) : Prop where
  of_updated : ∀ e t, (w.journal.updatedAt? e t).isSome → w.isAlive e ∧ t ∈ w.typesOf e
  of_removed : ∀ e t, (w.journal.removedAt? e t).isSome → w.isAlive e ∧ t ∉ w.typesOf e
  not_updated_and_removed : ∀ e t,
    ¬ ((w.journal.updatedAt? e t).isSome ∧ (w.journal.removedAt? e t).isSome)
  of_destroyed : ∀ e, (w.journal.destroyedAt? e).isSome →
    .begun e ∈ xs ∧ .ended e ∈ xs ∧ ¬ w.isAlive e

/-- The journal has a stamp of all that is so. -/
structure RecordedInFull (w : World κ) (xs : List Event) : Prop where
  /-- No two components of an entity have one tag. -/
  typesOf_nodup : ∀ e, (w.typesOf e).Nodup
  updated_iff : ∀ e t, (w.journal.updatedAt? e t).isSome ↔ t ∈ w.typesOf e
  created_iff : ∀ e, (w.journal.createdAt? e).isSome ↔ .begun e ∈ xs
  destroyed_iff : ∀ e, (w.journal.destroyedAt? e).isSome ↔ .ended e ∈ xs
  isAlive_iff : ∀ e, w.isAlive e ↔
    (w.journal.createdAt? e).isSome ∧ ¬ (w.journal.destroyedAt? e).isSome

omit [DecidableEq κ] in
theorem typesOf_nodup (hw : w.TagsDistinct) (e : Handle) : (w.typesOf e).Nodup := by
  unfold typesOf
  split
  · exact hw.sublist ((List.filter_sublist).map _)
  · exact List.nodup_nil

theorem undergo_operate (ops : List (Operation κ)) : w.undergo (ops.map .operate) = w.run ops := by
  induction ops generalizing w with
  | nil => rfl
  | cons op ops ih => exact ih

/-- **The journal agrees with the world.** In a run whose constructors return and in
which no slot uses up its generations, what is stamped as written is there, what
is stamped as removed is not, and who is stamped as destroyed came and went. If no
stamp was dropped, what is stamped as written is all there is, the created and
the destroyed are all who came and all who went, and the living are the former
without the latter. -/
theorem recorded_run {s : Settings} (hs : ofSettings? s = some w) {ops : List (Operation κ)}
    (hmade : ∀ op ∈ ops, op.Fulfilled)
    (hb : WithinGenerations (w.chronicle (ops.map .operate))) :
    (w.run ops).Recorded (w.chronicle (ops.map .operate)) ∧
      ((∀ op ∈ ops, op.KeepsRecords) →
        (w.run ops).RecordedInFull (w.chronicle (ops.map .operate))) := by
  have hw := (wellFormed_of_ofSettings? hs).run ops
  have hlived := chronicled_undergo hs hb
  rw [undergo_operate] at hlived
  have htypes : ∀ e t, t ∈ (w.run ops).typesOf e ↔ (w.run ops).Has e t :=
    fun _ _ => mem_typesOf_iff hw.tagsDistinct
  constructor
  · have hn := noted_run hs hmade False False.elim
    have hupdated : ∀ e t, ((w.run ops).journal.updatedAt? e t).isSome →
        (w.run ops).isAlive e ∧ t ∈ (w.run ops).typesOf e := by
      intro e t hu
      have hhas := (hn.updated e t).1 hu
      exact ⟨hhas.1, (htypes e t).mpr hhas⟩
    have hremoved : ∀ e t, ((w.run ops).journal.removedAt? e t).isSome →
        (w.run ops).isAlive e ∧ t ∉ (w.run ops).typesOf e := by
      intro e t hr
      obtain ⟨he, hh⟩ := hw.of_removed e t hr
      refine ⟨he, fun hmem => ?_⟩
      exact Bool.false_ne_true (hh.symm.trans ((htypes e t).mp hmem).2)
    refine ⟨hupdated, hremoved, fun e t h => ?_, fun e hd => ?_⟩
    · exact (hremoved e t h.2).2 (hupdated e t h.1).2
    · have hended := (hn.destroyed e).1 hd
      exact ⟨hlived.begun_of_ended e hended, hended, fun he => ((hlived.isAlive_iff e).mp he).2 hended⟩
  · intro hkeeps
    have hn := noted_run hs hmade True fun _ => hkeeps
    have hcreated : ∀ e, ((w.run ops).journal.createdAt? e).isSome ↔
        .begun e ∈ w.chronicle (ops.map .operate) :=
      fun e => ⟨(hn.created e).1, (hn.created e).2 trivial⟩
    have hdestroyed : ∀ e, ((w.run ops).journal.destroyedAt? e).isSome ↔
        .ended e ∈ w.chronicle (ops.map .operate) :=
      fun e => ⟨(hn.destroyed e).1, (hn.destroyed e).2 trivial⟩
    refine ⟨typesOf_nodup hw.tagsDistinct, fun e t => ?_, hcreated, hdestroyed, fun e => ?_⟩
    · rw [htypes]
      exact ⟨(hn.updated e t).1, (hn.updated e t).2 trivial⟩
    · rw [hcreated, hdestroyed]
      exact hlived.isAlive_iff e

/-- A particle comes, goes, and is followed by another in its slot. -/
def renewal : List (Operation (Stocked Empty)) :=
  [.registerSynced .particle Particle.codec, .spawn, .add .particle ⟨0, 0⟩ {}, .kill ⟨0, 0⟩, .spawn,
    .add .particle ⟨0, 1⟩ {}]

theorem recorded_renewal :
    (run {} renewal).Recorded (chronicle {} (renewal.map .operate)) ∧
      (run {} renewal).RecordedInFull (chronicle {} (renewal.map .operate)) := by
  have hmade : ∀ op ∈ renewal, op.Fulfilled := by simp [renewal, Operation.Fulfilled]
  have hkeeps : ∀ op ∈ renewal, op.KeepsRecords := by simp [renewal, Operation.KeepsRecords]
  have hb : WithinGenerations (chronicle {} (renewal.map .operate)) :=
    .of_length (by decide +kernel)
  obtain ⟨hrecorded, hfull⟩ := recorded_run (s := {}) rfl hmade hb
  exact ⟨hrecorded, hfull hkeeps⟩

end World
end EntityWorld
