/-
# The order of reuse shows in the handles only

Two worlds that differ in which free slot they take first soon differ in their
slots and generations. They stay alike along the handles of one number
(`Session.Twins`), dead or alive: as long as no slot uses up its generations a
handle has one number, so that no handle has two twins.

So a program that names entities by number is told the same in both worlds,
whatever it does and however it goes on from what it was told
(`Session.play_reordered`).

Key definitions: `World.reordered`, `Session.Twins`, `Session.Alike`,
`Session.Indistinct`.
Key theorems: `Session.Alike.perform`, `Session.Alike.play`,
`Session.play_reordered`.
-/
import EntityWorld.Proofs.Likeness
import Mathlib.Tactic

namespace EntityWorld

open Relator

variable {κ : Type} [Family κ] [DecidableEq κ]

namespace World

variable {w : World κ} {ρ : Handle → Handle → Prop}

/-! ### Another order of reuse -/

omit [DecidableEq κ] in
/-- The world with another order of reuse from now on. -/
def reordered (w : World κ) (o : ReuseOrder) : World κ :=
  { w with settings := { w.settings with reuse := o }, pool := { w.pool with reuse := o } }

/-- The order tells nothing of anybody, so whoever is known may be their own twin. -/
theorem alike_reordered (hw : w.WellFormed) (hself : ∀ e, w.Known e → ρ e e) (o : ReuseOrder) :
    w.Alike ρ (w.reordered o) where
  forms_eq := rfl
  size_eq := rfl
  liveCount_eq := rfl
  alive := .refl fun e he => hself e (Or.inl (Bool.eq_true_of_not_eq_false he))
  value _ := .refl fun e hv =>
    hself e (Or.inl (isAlive_of_get? (Option.isSome_iff_ne_none.mpr hv)))
  labels := .refl fun e hb => hself e (Or.inl (hw.isAlive_of_binds e hb))
  journal :=
    { now_eq := rfl
      created := .refl fun e hv => hself e (Or.inr (Or.inl (Option.isSome_iff_ne_none.mpr hv)))
      destroyed := .refl fun e hv => hself e (Or.inr (Or.inr (Option.isSome_iff_ne_none.mpr hv)))
      updated := fun t => .refl fun e hv =>
        hself e (Or.inl (hw.isAlive_of_updated e t (Option.isSome_iff_ne_none.mpr hv)))
      removed := fun t => .refl fun e hv =>
        hself e (Or.inl (hw.of_removed e t (Option.isSome_iff_ne_none.mpr hv)).1) }

end World

/-! ### Sessions -/

namespace Session

variable {s s' : Session κ}

/-- The handles have one number. -/
def Twins (s s' : Session κ) (e e' : Handle) : Prop :=
  ∃ j : Nat, s.handles[j]? = some e ∧ s'.handles[j]? = some e'

omit [DecidableEq κ] in
theorem biUnique_twins (hs : s.Sound) (hs' : s'.Sound) : BiUnique (Twins s s') := by
  constructor
  · rintro a b c ⟨i, ha, hc⟩ ⟨j, hb, hc'⟩
    cases hs'.eq_of_handles hc hc'
    exact Option.some.inj (ha.symm.trans hb)
  · rintro a b c ⟨i, ha, hb⟩ ⟨j, ha', hc⟩
    cases hs.eq_of_handles ha ha'
    exact Option.some.inj (hb.symm.trans hc)

/-- The worlds are alike along the handles of one number. -/
structure Alike (s s' : Session κ) : Prop where
  sound : s.Sound
  sound' : s'.Sound
  length_eq : s.handles.length = s'.handles.length
  world : s.world.Alike (Twins s s') s'.world

namespace Alike

variable {t t' : Session κ}

theorem of_handles (h : s.Alike s') (ht : t.Sound) (ht' : t'.Sound)
    (heq : t.handles = s.handles) (heq' : t'.handles = s'.handles)
    (hw : t.world.Alike (Twins s s') t'.world) : t.Alike t' where
  sound := ht
  sound' := ht'
  length_eq := by rw [heq, heq', h.length_eq]
  world := by
    unfold Twins
    rw [heq, heq']
    exact hw

/-- Who comes to one session is the twin of who comes to the other. -/
theorem begin (h : s.Alike s') {e e' : Handle} {pool pool' : SlotPool}
    (hin : s.world.pool.Enters e pool) (hin' : s'.world.pool.Enters e' pool')
    (hsize : pool.slots.size = pool'.slots.size) (hcount : pool.liveCount = pool'.liveCount)
    (ht : Sound ⟨s.world.enter e pool, s.history ++ [.begun e]⟩)
    (ht' : Sound ⟨s'.world.enter e' pool', s'.history ++ [.begun e']⟩) :
    Alike ⟨s.world.enter e pool, s.history ++ [.begun e]⟩
      ⟨s'.world.enter e' pool', s'.history ++ [.begun e']⟩ := by
  have hconcat : ∀ (u : Session κ) (w : World κ) (a : Handle),
      handles ⟨w, u.history ++ [.begun a]⟩ = u.handles ++ [a] := fun u w a => issued_append _ _
  have hold : ∀ (u : Session κ) (w : World κ) (a : Handle) {j : Nat} {b : Handle},
      u.handles[j]? = some b → (handles ⟨w, u.history ++ [.begun a]⟩)[j]? = some b := by
    intro u w a j b hb
    rw [hconcat]
    exact (List.getElem?_append_left (List.getElem?_eq_some_iff.mp hb).1).trans hb
  refine ⟨ht, ht', ?_, h.world.enter (biUnique_twins ht ht') ?_ ?_ h.sound.wellFormed.housed
    h.sound'.wellFormed.housed hin hin' hsize hcount⟩
  · rw [hconcat, hconcat, List.length_append, List.length_append, h.length_eq]
    rfl
  · rintro a b ⟨j, ha, hb⟩
    exact ⟨j, hold s _ _ ha, hold s' _ _ hb⟩
  · refine ⟨s.handles.length, ?_, ?_⟩
    · rw [hconcat, List.getElem?_concat_length]
    · rw [hconcat, h.length_eq, List.getElem?_concat_length]

/-- **One instruction.** Alike sessions give the same answer, and stay alike. -/
theorem perform (h : s.Alike s') {i : Instruction κ}
    (hb : WithinGenerations (s.perform i).2.history)
    (hb' : WithinGenerations (s'.perform i).2.history) :
    (s.perform i).1 = (s'.perform i).1 ∧ (s.perform i).2.Alike (s'.perform i).2 := by
  have hρ := biUnique_twins h.sound h.sound'
  have hw := h.sound.wellFormed
  have hw' := h.sound'.wellFormed
  have hnext := h.sound.perform hb
  have hnext' := h.sound'.perform hb'
  cases i with
  | spawn =>
    rcases h.world.spawn hw.pool hw'.pool with ⟨e, pool, e', pool', hs, hs', hsize, hcount⟩ | ⟨hs, hs'⟩
    · rw [perform_spawn_of_ok hs] at hnext ⊢
      rw [perform_spawn_of_ok hs'] at hnext' ⊢
      exact ⟨congrArg (Answer.entity ∘ some) h.length_eq,
        h.begin (SlotPool.enters_of_spawn hw.pool hs) (SlotPool.enters_of_spawn hw'.pool hs')
          hsize hcount hnext hnext'⟩
    · rw [perform_spawn_of_error hs, perform_spawn_of_error hs']
      exact ⟨rfl, h⟩
  | target id =>
    refine ⟨congrArg Answer.entity ?_, h⟩
    have htarget := h.world.labels.target? id
    generalize s.world.labels.target? id = o, s'.world.labels.target? id = o' at htarget ⊢
    cases htarget with
    | none => rfl
    | some hab =>
      obtain ⟨j, ha, hb⟩ := hab
      exact congrArg some ((h.sound.idxOf_eq ha).trans (h.sound'.idxOf_eq hb).symm)
  | visit j d =>
    cases hj : s.handles[j]? with
    | none =>
      have hj' : s'.handles[j]? = none := by
        rw [List.getElem?_eq_none_iff] at hj ⊢
        exact h.length_eq ▸ hj
      rw [perform_of_nobody hj, perform_of_nobody hj']
      exact ⟨rfl, h⟩
    | some e =>
      obtain ⟨hlt, -⟩ := List.getElem?_eq_some_iff.mp hj
      have hj' : s'.handles[j]? = some _ := List.getElem?_eq_getElem (h.length_eq ▸ hlt)
      have he : Twins s s' e _ := ⟨j, hj, hj'⟩
      rw [perform_of_handle hj] at hnext ⊢
      rw [perform_of_handle hj'] at hnext' ⊢
      have hsame : ∀ (u : Session κ) (w : World κ) a,
          handles ⟨w, u.history ++ d.events a u.world⟩ = u.handles := fun u w a => by
        unfold handles
        rw [issued_append, d.issued_events, List.append_nil]
      exact ⟨h.world.answer_eq hρ he hw.tagsDistinct hw'.tagsDistinct d,
        h.of_handles hnext hnext' (hsame s _ _) (hsame s' _ _)
          (h.world.act hρ he hw.tagsDistinct hw'.tagsDistinct d).after⟩

/-- **A run.** A program is told the same all the way. -/
theorem play (h : s.Alike s') (next : Program κ) {n : Nat}
    (hb : WithinGenerations (s.play next n).2.history)
    (hb' : WithinGenerations (s'.play next n).2.history) :
    (s.play next n).1 = (s'.play next n).1 ∧ (s.play next n).2.Alike (s'.play next n).2 := by
  induction n with
  | zero => exact ⟨rfl, h⟩
  | succ n ih =>
    obtain ⟨hanswers, halike⟩ := ih (withinGenerations_of_perform hb)
      (withinGenerations_of_perform hb')
    simp only [Session.play] at hb hb' ⊢
    rw [← hanswers] at hb' ⊢
    obtain ⟨hanswer, hnext⟩ := halike.perform hb hb'
    exact ⟨by rw [hanswer], hnext⟩

end Alike

/-! ### Two orders of reuse -/

/-- What the sessions count is the same, and the same numbers are alive. -/
structure Indistinct (s s' : Session κ) : Prop where
  liveCount_eq : s.world.pool.liveCount = s'.world.pool.liveCount
  size_free_eq : s.world.pool.free.size = s'.world.pool.free.size
  next_eq : s.world.pool.next = s'.world.pool.next
  size_created_eq : s.world.journal.created.size = s'.world.journal.created.size
  size_destroyed_eq : s.world.journal.destroyed.size = s'.world.journal.destroyed.size
  size_updated_eq : s.world.journal.updated.size = s'.world.journal.updated.size
  size_removed_eq : s.world.journal.removed.size = s'.world.journal.removed.size
  living_eq : s.living = s'.living

theorem Alike.indistinct (h : s.Alike s') : s.Indistinct s' where
  liveCount_eq := h.world.liveCount_eq
  size_free_eq := by
    have hall := h.sound.wellFormed.pool.liveCount_add_size_free
    have hall' := h.sound'.wellFormed.pool.liveCount_add_size_free
    have hsize := h.world.size_eq
    have hcount := h.world.liveCount_eq
    omega
  next_eq := congrArg UInt32.ofNat h.world.size_eq
  size_created_eq := h.world.journal.created.size_eq (biUnique_twins h.sound h.sound')
  size_destroyed_eq := h.world.journal.destroyed.size_eq (biUnique_twins h.sound h.sound')
  size_updated_eq := Journal.Alike.size_eq_of_tags (biUnique_twins h.sound h.sound')
    h.world.journal.updated
  size_removed_eq := Journal.Alike.size_eq_of_tags (biUnique_twins h.sound h.sound')
    h.world.journal.removed
  living_eq := by
    unfold living
    rw [h.length_eq]
    refine List.filter_congr fun j hj => ?_
    have hlt' := List.mem_range.mp hj
    have hlt : j < s.handles.length := h.length_eq ▸ hlt'
    rw [List.getElem?_eq_getElem hlt, List.getElem?_eq_getElem hlt']
    exact h.world.alive.eq (biUnique_twins h.sound h.sound')
      ⟨j, List.getElem?_eq_getElem hlt, List.getElem?_eq_getElem hlt'⟩

/-- The session that a run leads to. -/
def ofRun (w : World κ) (ops : List (Operation κ)) : Session κ :=
  ⟨w.run ops, w.chronicle (ops.map .operate)⟩

/-- The session with another order of reuse from now on. -/
def reordered (s : Session κ) (o : ReuseOrder) : Session κ := { s with world := s.world.reordered o }

theorem sound_ofRun {σ : Settings} {w : World κ} (hσ : World.ofSettings? σ = some w)
    {ops : List (Operation κ)} (hb : WithinGenerations (ofRun w ops).history) :
    (ofRun w ops).Sound := by
  have hc := World.chronicled_undergo hσ hb
  rw [World.undergo_operate] at hc
  exact ⟨(World.wellFormed_of_ofSettings? hσ).run ops, hc⟩

omit [DecidableEq κ] in
/-- Which slot is taken next does not matter to how things are. -/
theorem Sound.reordered (h : s.Sound) (o : ReuseOrder) : (s.reordered o).Sound where
  wellFormed :=
    { h.wellFormed with
      pool := { h.wellFormed.pool with } }
  chronicled := { h.chronicled with wellFormed := { h.chronicled.wellFormed with } }

/-- To begin with, everybody is their own twin. -/
theorem alike_reordered {σ : Settings} {w : World κ} (hσ : World.ofSettings? σ = some w)
    {ops : List (Operation κ)} (hb : WithinGenerations (ofRun w ops).history) (o : ReuseOrder) :
    (ofRun w ops).Alike ((ofRun w ops).reordered o) := by
  have hs := sound_ofRun hσ hb
  refine ⟨hs, hs.reordered o, rfl, World.alike_reordered hs.wellFormed (fun e he => ?_) o⟩
  have hmem := (mem_issued _ e).mpr (World.begun_of_known hσ ops he)
  obtain ⟨j, hj⟩ := List.mem_iff_getElem?.mp hmem
  exact ⟨j, hj, hj⟩

/-- What a session has seen before a program it has seen after it. -/
theorem withinGenerations_of_play {next : Program κ} {n : Nat}
    (h : WithinGenerations (s.play next n).2.history) : WithinGenerations s.history := by
  induction n with
  | zero => exact h
  | succ n ih => exact ih (withinGenerations_of_perform h)

/-- **The order of reuse shows in the handles only.** Let two worlds be the same but for
the order in which they reuse their slots, whatever was done to the one that they
are copies of. A program that names entities by number, and goes on from what it was
told as it likes, is told the same in both after any number of instructions, errors
included. By then as many entities are alive in both, and these by number, as many
slots are free, the next new slot is the same, and the journal has as many stamps of
each sort; as long as in neither a slot uses up its generations. -/
theorem play_reordered {σ : Settings} {w : World κ} (hσ : World.ofSettings? σ = some w)
    (ops : List (Operation κ)) (o : ReuseOrder) (next : Program κ) (n : Nat)
    (hb : WithinGenerations ((ofRun w ops).play next n).2.history)
    (hb' : WithinGenerations (((ofRun w ops).reordered o).play next n).2.history) :
    ((ofRun w ops).play next n).1 = (((ofRun w ops).reordered o).play next n).1 ∧
      ((ofRun w ops).play next n).2.Indistinct (((ofRun w ops).reordered o).play next n).2 := by
  obtain ⟨hanswers, halike⟩ :=
    (alike_reordered hσ (withinGenerations_of_play hb) o).play next hb hb'
  exact ⟨hanswers, halike.indistinct⟩

/-- Two of three entities go, and another comes, who is written to and asked for. -/
def turnover : Program (Stocked Empty) := fun answers =>
  [.spawn, .spawn, .spawn, .visit 0 .kill, .visit 1 .kill, .spawn, .visit 3 (.add .particle {}),
    .visit 1 (.get .particle), .visit 3 (.createLabel "new"), .target 0].getD answers.length .spawn

/-- Particles take part in snapshots, and nobody has come yet. -/
def vacant : Session (Stocked Empty) := ofRun {} [.registerSynced .particle Particle.codec]

/-- The newcomer has the slot freed last or the one freed first. -/
theorem play_turnover :
    (vacant.play turnover 10).1 = ((vacant.reordered .oldestFirst).play turnover 10).1 ∧
      (vacant.play turnover 10).2.Indistinct ((vacant.reordered .oldestFirst).play turnover 10).2 ∧
      (vacant.play turnover 10).2.handles = [⟨0, 0⟩, ⟨1, 0⟩, ⟨2, 0⟩, ⟨1, 1⟩] ∧
      ((vacant.reordered .oldestFirst).play turnover 10).2.handles =
        [⟨0, 0⟩, ⟨1, 0⟩, ⟨2, 0⟩, ⟨0, 1⟩] := by
  have hstart : World.ofSettings? {} = some ({} : World (Stocked Empty)) := rfl
  have hb : WithinGenerations (vacant.play turnover 10).2.history := .of_length (by decide +kernel)
  have hb' : WithinGenerations ((vacant.reordered .oldestFirst).play turnover 10).2.history :=
    .of_length (by decide +kernel)
  obtain ⟨hanswers, hsame⟩ := play_reordered hstart
    [.registerSynced .particle Particle.codec] .oldestFirst turnover 10 hb hb'
  exact ⟨hanswers, hsame, by decide +kernel, by decide +kernel⟩

end Session
end EntityWorld
