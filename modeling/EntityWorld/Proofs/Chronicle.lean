/-
# Handles are given out once

The chronicle of a run lists who came and who went, in order. While no slot has
run out of generations it tells all there is to know about the slots
(`SlotPool.Chronicled`): the generation of a slot is the number of those who left
it, and alive are those who came and did not go. A slot that is taken again is
past the generation of everybody who left it, so that the newcomer's handle is
not one that was given out before, and a handle whose entity went stays dead.

A dead handle opens nothing (`World.Gone`): what is read through it is not there,
and what is written through it is refused, whoever lives in its slot by then.

Key definitions: `World.chronicle`, `WithinGenerations`, `SlotPool.Chronicled`,
`World.Gone`.
Key theorems: `SlotPool.Chronicled.enter`, `SlotPool.Chronicled.leave`,
`World.chronicled_undergo`, `World.handles_of_chronicle`.
-/
import EntityWorld.Proofs.Access
import Mathlib.Tactic

namespace EntityWorld

/-! ### Chronicles -/

/-- The handles that were given out, in order. -/
def issued (xs : List Event) : List Handle :=
  xs.filterMap fun
    | .begun e => some e
    | .ended _ => none

/-- The number of those who left a slot. -/
def departures (xs : List Event) (i : Nat) : Nat :=
  xs.countP fun
    | .begun _ => false
    | .ended e => e.slot = i

/-- No slot was left so often that its generations are used up. -/
def WithinGenerations (xs : List Event) : Prop := ∀ i, departures xs i < UInt32.size

section Lists

variable (xs ys : List Event) (e : Handle) (i : Nat)

theorem mem_issued : e ∈ issued xs ↔ .begun e ∈ xs := by
  unfold issued
  rw [List.mem_filterMap]
  constructor
  · rintro ⟨x | x, hx, he⟩
    · cases he
      exact hx
    · cases he
  · exact fun h => ⟨_, h, rfl⟩

theorem issued_append : issued (xs ++ ys) = issued xs ++ issued ys := List.filterMap_append

theorem departures_append : departures (xs ++ ys) i = departures xs i + departures ys i :=
  List.countP_append

theorem departures_begun : departures [.begun e] i = 0 := rfl

theorem departures_ended : departures [.ended e] i = if e.slot = i then 1 else 0 := by
  simp [departures, List.countP_cons]

theorem WithinGenerations.of_append {xs ys : List Event} (h : WithinGenerations (xs ++ ys)) :
    WithinGenerations xs := by
  intro i
  have hi := h i
  rw [departures_append] at hi
  omega

theorem WithinGenerations.of_length {xs : List Event} (h : xs.length < UInt32.size) :
    WithinGenerations xs := fun _ => lt_of_le_of_lt List.countP_le_length h

end Lists

/-- A split of a longer list at some event is one of the list, or the event is new. -/
theorem split_concat {xs before later : List Event} {x y : Event}
    (h : xs ++ [x] = before ++ y :: later) :
    (before = xs ∧ y = x) ∨ ∃ later', xs = before ++ y :: later' := by
  rcases List.eq_nil_or_concat later with rfl | ⟨later', z, rfl⟩
  · obtain ⟨hxs, hx⟩ := List.append_inj' h rfl
    exact Or.inl ⟨hxs.symm, (List.singleton_inj.mp hx).symm⟩
  · right
    refine ⟨later', ?_⟩
    have hsplit : xs ++ [x] = (before ++ y :: later') ++ [z] := by simpa using h
    exact (List.append_inj' hsplit rfl).1

/-! ### What a chronicle tells of the slots -/

namespace SlotPool

/-- The slots are as a chronicle tells. -/
structure Chronicled (p : SlotPool) (xs : List Event) : Prop where
  wellFormed : p.WellFormed
  generation_eq : ∀ i, (p.slotAt i).generation.toNat = departures xs i
  issued_nodup : (issued xs).Nodup
  /-- The generation of a handle is the number of those who left its slot before. -/
  numbered : ∀ before e later, xs = before ++ .begun e :: later →
    e.generation.toNat = departures before e.slot
  isAlive_iff : ∀ e, p.isAlive e ↔ .begun e ∈ xs ∧ .ended e ∉ xs
  begun_of_ended : ∀ e, .ended e ∈ xs → .begun e ∈ xs
  /-- Who left is of a generation that its slot has passed. -/
  lt_of_ended : ∀ e, .ended e ∈ xs → e.generation.toNat < departures xs e.slot

namespace Chronicled

variable {p q : SlotPool} {xs : List Event} {e : Handle}

theorem empty (o : ReuseOrder) : Chronicled { reuse := o } [] where
  wellFormed := wellFormed_empty o
  generation_eq i := by rfl
  issued_nodup := List.nodup_nil
  numbered before e later h := by simp at h
  isAlive_iff e := by simp [isAlive]
  begun_of_ended e h := by cases h
  lt_of_ended e h := by cases h

/-- A newcomer was not there before: whoever had its handle would live in the slot,
or have left it in an earlier generation. -/
theorem not_begun_of_enters (h : Chronicled p xs) (he : p.Enters e q) : .begun e ∉ xs := by
  intro hb
  by_cases hd : .ended e ∈ xs
  · have hlt := h.lt_of_ended e hd
    have hg := h.generation_eq e.slot
    rw [he.generation] at hg
    omega
  · exact he.not_isAlive rfl ((h.isAlive_iff e).mpr ⟨hb, hd⟩)

theorem enter (h : Chronicled p xs) (he : p.Enters e q) (hq : q.WellFormed) :
    Chronicled q (xs ++ [.begun e]) := by
  have hnew := h.not_begun_of_enters he
  have hdepart : ∀ i, departures (xs ++ [.begun e]) i = departures xs i := by
    intro i
    rw [departures_append, departures_begun, Nat.add_zero]
  have hended : ∀ e', .ended e' ∈ xs ++ [.begun e] ↔ .ended e' ∈ xs := by simp
  refine ⟨hq, fun i => ?_, ?_, ?_, fun e' => ?_, fun e' hd => ?_, fun e' hd => ?_⟩
  · rw [hdepart, ← h.generation_eq, he.slotAt_eq]
    split <;> rfl
  · rw [issued_append]
    refine List.nodup_append.mpr ⟨h.issued_nodup, List.nodup_singleton e, ?_⟩
    rintro a ha b hb rfl
    rw [List.mem_singleton.mp hb] at ha
    exact hnew ((mem_issued xs e).mp ha)
  · intro before e' later hsplit
    rcases split_concat hsplit with ⟨rfl, heq⟩ | ⟨later', hold⟩
    · cases heq
      rw [← h.generation_eq, he.generation]
    · exact h.numbered before e' later' hold
  · rw [he.isAlive_iff, h.isAlive_iff, hended, List.mem_append, List.mem_singleton,
      Event.begun.injEq]
    constructor
    · rintro (rfl | ⟨hb, hd⟩)
      · exact ⟨Or.inr rfl, fun hd => hnew (h.begun_of_ended e' hd)⟩
      · exact ⟨Or.inl hb, hd⟩
    · rintro ⟨hb | rfl, hd⟩
      · exact Or.inr ⟨hb, hd⟩
      · exact Or.inl rfl
  · exact List.mem_append_left _ (h.begun_of_ended e' ((hended e').mp hd))
  · rw [hdepart]
    exact h.lt_of_ended e' ((hended e').mp hd)

theorem leave (h : Chronicled p xs) (he : p.Leaves e q) (hq : q.WellFormed)
    (hroom : departures xs e.slot + 1 < UInt32.size) : Chronicled q (xs ++ [.ended e]) := by
  obtain ⟨hbegun, hstay⟩ := (h.isAlive_iff e).mp he.alive
  have hgen : e.generation.toNat = departures xs e.slot := by
    rw [← h.generation_eq, (isAlive_iff_slotAt.mp he.alive).2]
  have hdepart : ∀ i, departures (xs ++ [.ended e]) i =
      departures xs i + if e.slot = i then 1 else 0 := by
    intro i
    rw [departures_append, departures_ended]
  have hb : ∀ e', .begun e' ∈ xs ++ [.ended e] ↔ .begun e' ∈ xs := by simp
  have hd : ∀ e', .ended e' ∈ xs ++ [.ended e] ↔ .ended e' ∈ xs ∨ e' = e := by simp
  refine ⟨hq, fun i => ?_, ?_, ?_, fun e' => ?_, fun e' hmem => ?_, fun e' hmem => ?_⟩
  · rw [hdepart, he.slotAt_eq]
    by_cases hi : i = e.slot
    · have hsucc : (e.generation + 1).toNat = e.generation.toNat + 1 := by
        have hsize : UInt32.size = 4294967296 := rfl
        rw [UInt32.toNat_add]
        change (e.generation.toNat + 1) % 4294967296 = _
        omega
      rw [if_pos hi, if_pos hi.symm, hi, hsucc, hgen]
    · rw [if_neg hi, if_neg (Ne.symm hi), h.generation_eq, Nat.add_zero]
  · rw [issued_append]
    simpa [issued] using h.issued_nodup
  · intro before e' later hsplit
    rcases split_concat hsplit with ⟨-, heq⟩ | ⟨later', hold⟩
    · cases heq
    · exact h.numbered before e' later' hold
  · rw [he.isAlive_iff, h.isAlive_iff, hb, hd]
    tauto
  · rw [hb]
    rcases (hd e').mp hmem with hold | rfl
    · exact h.begun_of_ended e' hold
    · exact hbegun
  · rw [hdepart]
    rcases (hd e').mp hmem with hold | rfl
    · have hlt := h.lt_of_ended e' hold
      omega
    · rw [if_pos rfl]
      omega

end Chronicled
end SlotPool

/-! ### Runs -/

variable {κ : Type} [Family κ] [DecidableEq κ]

/-- Who comes and who goes by an access. -/
def Access.events : Access κ → World κ → List Event
  | operate op, w => op.events w
  | column .., _ | labels _, _ | journal _, _ => []

namespace World

/-- Who comes and who goes in a run. -/
def chronicle : World κ → List (Access κ) → List Event
  | _, [] => []
  | w, a :: as => a.events w ++ chronicle (a.apply w) as

variable {w : World κ}

theorem chronicle_append (as bs : List (Access κ)) :
    w.chronicle (as ++ bs) = w.chronicle as ++ (w.undergo as).chronicle bs := by
  induction as generalizing w with
  | nil => rfl
  | cons a as ih =>
    rw [List.cons_append, chronicle, chronicle, ih, List.append_assoc, undergo_cons]

end World

namespace SlotPool.Chronicled

variable {w : World κ} {xs : List Event}

/-- A replay is chronicled. -/
theorem replay (h : Chronicled w.pool xs) {entries : List SnapshotEntry}
    (hr : ∀ x ∈ entries, w.Replayable x) :
    Chronicled (w.replay entries).pool (xs ++ (w.newcomers entries).map .begun) := by
  have henter : ∀ {es : List Handle} {u : World κ} {e : Handle} {pool : SlotPool},
      Chronicled u.pool (xs ++ es.map .begun) → u.pool.Enters e pool → pool.WellFormed →
        Chronicled (u.enter e pool).pool (xs ++ (es ++ [e]).map .begun) := by
    intro es u e pool hu he hp
    rw [List.map_append, ← List.append_assoc]
    exact hu.enter he hp
  have hstart : Chronicled w.pool (xs ++ ([] : List Handle).map .begun) := by
    rw [List.map_nil, List.append_nil]
    exact h
  exact World.replay_induction
    (motive := fun es u => Chronicled u.pool (xs ++ es.map Event.begun))
    h.wellFormed hr [] hstart henter fun _ hu _ _ => hu

/-- An operation is chronicled. -/
theorem operate (h : Chronicled w.pool xs) (op : Operation κ)
    (hb : WithinGenerations (xs ++ op.events w)) :
    Chronicled (op.apply w).pool (xs ++ op.events w) := by
  have ho := op.outcome_apply h.wellFormed
  generalize op.events w = ys at ho hb ⊢
  generalize op.apply w = w' at ho ⊢
  cases ho with
  | spawn hs => exact h.enter (enters_of_spawn h.wellFormed hs) (wellFormed_of_spawn h.wellFormed hs)
  | claim _ hc =>
    exact h.enter (enters_of_claim h.wellFormed hc).1 (wellFormed_of_claim h.wellFormed hc)
  | @kill e pool hk =>
    have hroom := hb e.slot
    rw [departures_append, departures_ended, if_pos rfl] at hroom
    exact h.leave (leaves_of_kill hk) (wellFormed_of_kill h.wellFormed hk) hroom
  | restore hr => exact h.replay hr
  | _ =>
    rw [List.append_nil]
    exact h

theorem apply (h : Chronicled w.pool xs) (a : Access κ)
    (hb : WithinGenerations (xs ++ a.events w)) :
    Chronicled (a.apply w).pool (xs ++ a.events w) := by
  cases a with
  | operate op => exact h.operate op hb
  | column k f =>
    have hp : ((Access.column k f).apply w).pool = w.pool := World.pool_modifyColumn k f
    rw [hp]
    exact (List.append_nil xs).symm ▸ h
  | labels | journal => exact (List.append_nil xs).symm ▸ h

theorem undergo (h : Chronicled w.pool xs) {as : List (Access κ)}
    (hb : WithinGenerations (xs ++ w.chronicle as)) :
    Chronicled (w.undergo as).pool (xs ++ w.chronicle as) := by
  induction as generalizing w xs with
  | nil => simpa [World.chronicle] using h
  | cons a as ih =>
    rw [World.chronicle, ← List.append_assoc] at hb ⊢
    exact ih (h.apply a hb.of_append) hb

end SlotPool.Chronicled

namespace World

variable {w : World κ}

/-- A run from the start is chronicled. -/
theorem chronicled_undergo {s : Settings} (hs : ofSettings? s = some w) {as : List (Access κ)}
    (hb : WithinGenerations (w.chronicle as)) : (w.undergo as).pool.Chronicled (w.chronicle as) := by
  have hstart : SlotPool.Chronicled w.pool [] := by
    rw [eq_of_ofSettings? hs]
    exact .empty s.reuse
  exact hstart.undergo hb

/-! ### Dead handles -/

/-- Nothing is reached through a handle: it is read as if nothing were there, and
all else that is done with it fails and leaves the world alone. -/
structure Gone (w : World κ) (e : Handle) : Prop where
  not_isAlive : ¬ w.isAlive e
  get_eq : ∀ k, get k e w =
    if w.isRegistered k then .ok none w else .error (.notRegistered (typeName k)) w
  has_eq : ∀ k, w.isRegistered k → ((·.isSome) <$> get k e) w = .ok false w
  typesOf_eq : w.typesOf e = []
  add : ∀ k v, ∃ cause, add k e v w = .error cause w
  emplace : ∀ k make, ∃ cause, emplace k e make w = .error cause w
  remove : ∀ k, ∃ cause, remove k e w = .error cause w
  markDirty : ∀ k, ∃ cause, markDirty k e w = .error cause w
  kill : kill e w = .error (.handle (.notAlive e)) w
  bindLabel : ∀ id, bindLabel id e w = .error (.handle (.notAlive e)) w
  createLabel : ∀ name, createLabel name e w = .error (.handle (.notAlive e)) w

theorem exists_refusal {e : Handle} (h : ¬ w.isAlive e) (k : κ) :
    ∃ cause, w.refusal? k e = some cause :=
  Option.ne_none_iff_exists'.mp fun hn => h (refusal?_eq_none_iff.mp hn).2

theorem gone_of_not_isAlive {e : Handle} (h : ¬ w.isAlive e) : w.Gone e := by
  have hget : ∀ k, w.get? k e = none := fun k => if_neg h
  have hkill : SlotPool.kill e w.pool = .error (.notAlive e) w.pool := if_neg h
  have hread : ∀ k, get k e w =
      if w.isRegistered k then .ok none w else .error (.notRegistered (typeName k)) w := by
    intro k
    rw [World.get_eq, hget]
  refine ⟨h, hread, fun k hk => ?_, if_neg h, fun k v => ?_, fun k make => ?_, fun k => ?_,
    fun k => ?_, ?_, fun _ => if_neg h, fun _ => if_neg h⟩
  · have hr := hread k
    rw [if_pos hk] at hr
    simp only [Functor.map, EStateM.map, hr]
    rfl
  · obtain ⟨cause, hc⟩ := exists_refusal h k
    exact ⟨cause, by rw [add_eq, hc]⟩
  · obtain ⟨cause, hc⟩ := exists_refusal h k
    exact ⟨cause, by rw [emplace_eq, hc]⟩
  · obtain ⟨cause, hc⟩ := exists_refusal h k
    exact ⟨cause, by rw [remove_eq, hc]⟩
  · obtain ⟨cause, hc⟩ := exists_refusal h k
    exact ⟨cause, by rw [markDirty_eq, hc]⟩
  · unfold World.kill
    rw [hkill]

/-- **Handles are given out once and do not come back.** In a run in which no slot
uses up its generations, no handle is given out twice, the generation of each is
the number of those who left its slot before, and a handle whose entity was ended
reaches nothing ever after. -/
theorem handles_of_chronicle {s : Settings} (hs : ofSettings? s = some w) {as : List (Access κ)}
    (hb : WithinGenerations (w.chronicle as)) :
    (issued (w.chronicle as)).Nodup ∧
    (∀ before e later, w.chronicle as = before ++ .begun e :: later →
      e.generation.toNat = departures before e.slot) ∧
    ∀ before between later e, as = before ++ between ++ later →
      .ended e ∈ w.chronicle before → (w.undergo (before ++ between)).Gone e := by
  have hall := chronicled_undergo hs hb
  refine ⟨hall.issued_nodup, hall.numbered, ?_⟩
  rintro before between later e rfl hended
  rw [chronicle_append] at hb
  have hthen := chronicled_undergo hs hb.of_append
  refine gone_of_not_isAlive fun he => ((hthen.isAlive_iff e).mp he).2 ?_
  rw [chronicle_append]
  exact List.mem_append_left _ hended

/-- A particle comes and goes; two others are restored, one into its slot. -/
def succeeding : List (Access (Stocked Empty)) :=
  let tag := tagOf (Stocked.particle : Stocked Empty)
  [.operate (.registerSynced .particle Particle.codec), .operate .spawn, .operate (.kill ⟨0, 0⟩),
    .operate (.restore ⟨[⟨2, tag, [0, 0, 0, 0, 0, 0, 0, 0]⟩, ⟨0, tag, [0, 0, 0, 0, 0, 0, 0, 0]⟩]⟩)]

/-- Its handle does not reach the one in its slot. -/
theorem handles_of_succeeding :
    (issued (chronicle {} succeeding)).Nodup ∧ .begun ⟨0, 1⟩ ∈ chronicle {} succeeding ∧
      (undergo {} succeeding).Gone ⟨0, 0⟩ := by
  have hall : chronicle {} succeeding =
      [.begun ⟨0, 0⟩, .ended ⟨0, 0⟩, .begun ⟨2, 0⟩, .begun ⟨0, 1⟩] := by decide +kernel
  have hfirst : chronicle {} (succeeding.take 3) = [.begun ⟨0, 0⟩, .ended ⟨0, 0⟩] := by
    decide +kernel
  have hb : WithinGenerations (chronicle {} succeeding) := .of_length (by rw [hall]; decide)
  obtain ⟨hnodup, -, hgone⟩ := handles_of_chronicle (s := {}) rfl hb
  refine ⟨hnodup, ?_, ?_⟩
  · rw [hall]
    simp
  · refine hgone (succeeding.take 3) (succeeding.drop 3) [] ⟨0, 0⟩ rfl ?_
    rw [hfirst]
    simp

end World
end EntityWorld
