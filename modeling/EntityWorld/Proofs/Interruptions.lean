/-
# What is made of several steps and stops at one

Registering the stock kinds and making stars are each several steps, of which any may
fail, and a step that fails does not undo those before it. Each step for itself does
all or nothing; of the whole there remains what came before.

So registering several kinds leaves the world as it was only if the kinds that came
before were registered with codecs all along (`World.registerEach_eq_self_iff`), and a
star that cannot be made leaves somebody behind, with a star or without one, unless
there was no slot to begin with (`Simulation.starsStop_of_error`).

Key definitions: `World.Carries`, `World.StarsStop`.
Key theorems: `exists_of_forM_error`, `World.registerEach_eq_self_iff`,
`Simulation.starsStop_of_error`, `Simulation.stopped_midway`.
-/
import EntityWorld.Proofs.Convergence
import EntityWorld.Proofs.Refusals
import EntityWorld.Proofs.Reuse
import EntityWorld.Proofs.Tabulation
import Mathlib.Tactic

namespace EntityWorld

/-- A loop that fails, fails at one of its steps, after those before it. -/
theorem exists_of_forM_error {ε σ α : Type} {f : α → EStateM ε σ PUnit} {xs : List α} {s t : σ}
    {c : ε} (h : xs.forM f s = .error c t) : ∃ ys x zs u, xs = ys ++ x :: zs ∧
      ys.forM f s = .ok () u ∧ f x u = .error c t := by
  induction xs generalizing s with
  | nil => cases h
  | cons x xs ih =>
    change (f x >>= fun _ => xs.forM f) s = .error c t at h
    cases hx : f x s with
    | error d u =>
      rw [bind_of_error hx] at h
      cases h
      exact ⟨[], x, xs, s, rfl, rfl, hx⟩
    | ok _ u =>
      rw [bind_of_ok hx] at h
      obtain ⟨ys, y, zs, v, rfl, hys, hy⟩ := ih h
      exact ⟨x :: ys, y, zs, v, rfl, (bind_of_ok hx).trans hys, hy⟩

variable {κ : Type} [Family κ] [DecidableEq κ]

namespace World

variable {w u : World κ} {k k' : κ} {codec : Codec (Value k)} {c : WorldError}

/-! ### Kinds -/

omit [DecidableEq κ] in
/-- A kind is registered for snapshots. -/
def Carries (w : World κ) (k : κ) : Prop := ∃ r ∈ w.registrations, r.kind = k ∧ r.synced?.isSome

/-- A kind that has a codec is offered another in vain. -/
theorem Carries.offer_eq (h : w.Carries k) (hw : w.TagsDistinct) (codec : Codec (Value k)) :
    w.offer k (some codec) = w := by
  obtain ⟨r₀, hr₀, rfl, hs⟩ := h
  have hsame : ∀ r ∈ w.registrations, r.offerCodec r₀.kind (some codec) = id r := by
    intro r hr
    by_cases hk : r.kind = r₀.kind
    · have heq : r = r₀ := List.inj_on_of_nodup_map hw hr hr₀ (congrArg tagOf hk)
      subst heq
      exact Registration.offerCodec_of_isSome hs
    · exact Registration.offerCodec_of_ne hk
  unfold offer
  rw [List.map_congr_left hsame, List.map_id]

/-- A kind that was registered for snapshots stays so when another is offered a codec. -/
theorem Carries.offer (h : w.Carries k') (codec : Codec (Value k)) :
    (w.offer k (some codec)).Carries k' := by
  obtain ⟨r, hr, hk, hs⟩ := h
  refine ⟨r.offerCodec k (some codec), List.mem_map_of_mem hr, ?_, ?_⟩
  · rw [Registration.kind_offerCodec, hk]
  · rw [Registration.offerCodec_of_isSome hs]
    exact hs

omit [DecidableEq κ] in
theorem Carries.enroll (h : w.Carries k') (codec : Codec (Value k)) :
    (w.enroll k (some codec)).Carries k' := by
  obtain ⟨r, hr, hk⟩ := h
  exact ⟨r, List.mem_append_left _ hr, hk⟩

theorem carries_offer_self (hk : w.isRegistered k) (codec : Codec (Value k)) :
    (w.offer k (some codec)).Carries k := by
  obtain ⟨r, hr, rfl⟩ := isRegistered_iff.mp hk
  refine ⟨r.offerCodec r.kind (some codec), List.mem_map_of_mem hr, Registration.kind_offerCodec, ?_⟩
  obtain ⟨k, column, own⟩ := r
  unfold Registration.offerCodec
  rw [dif_pos rfl]
  cases own <;> rfl

omit [DecidableEq κ] in
theorem carries_enroll_self (codec : Codec (Value k)) : (w.enroll k (some codec)).Carries k :=
  ⟨_, List.mem_append_right _ (List.mem_singleton_self _), rfl, rfl⟩

/-- Registering one kind for snapshots enrolls it, or offers it the codec. -/
theorem registerSynced_ok_cases (h : registerSynced k codec w = .ok () u) :
    w.isRegistered k ∧ u = w.offer k (some codec) ∨
      w.ofTag? (tagOf k) = none ∧ u = w.enroll k (some codec) := by
  by_cases hk : w.isRegistered k
  · have hr := registerWith_of_isRegistered hk (some codec)
    change registerWith k (some codec) w = .ok () u at h
    rw [hr] at h
    cases hrep : w.settings.repeats with
    | reject =>
      rw [hrep] at h
      cases h
    | accept =>
      rw [hrep] at h
      cases h
      exact Or.inl ⟨hk, rfl⟩
  · have hr := registerWith_of_not_isRegistered hk (some codec)
    change registerWith k (some codec) w = .ok () u at h
    rw [hr] at h
    cases ht : w.ofTag? (tagOf k) with
    | some other =>
      rw [ht] at h
      cases h
    | none =>
      rw [ht] at h
      cases h
      exact Or.inr ⟨rfl, rfl⟩

theorem carries_of_registerSynced (h : registerSynced k codec w = .ok () u) :
    u.Carries k ∧ ∀ k', w.Carries k' → u.Carries k' := by
  rcases registerSynced_ok_cases h with ⟨hk, rfl⟩ | ⟨-, rfl⟩
  · exact ⟨carries_offer_self hk codec, fun _ h' => h'.offer codec⟩
  · exact ⟨carries_enroll_self codec, fun _ h' => h'.enroll codec⟩

theorem tagsDistinct_registerSynced (hw : w.TagsDistinct)
    (h : registerSynced k codec w = .ok () u) : u.TagsDistinct := by
  rcases registerSynced_ok_cases h with ⟨-, rfl⟩ | ⟨ht, rfl⟩
  · exact Change.tagsDistinct (.offer codec) hw
  · exact tagsDistinct_enroll hw _ ht

/-- Registering one kind does all or nothing. -/
theorem eq_of_registerSynced_error (hw : w.TagsDistinct)
    (h : registerSynced k codec w = .error c u) : u = w :=
  ((failed?_registerWith_iff hw (some codec)).mp (failed?_of_error h)).2

/-! ### Kinds, one after another -/

variable {xs : List ((k : κ) × Codec (Value k))}

theorem registerEach_cons_ok {x : (k : κ) × Codec (Value k)}
    (h : registerEach (x :: xs) w = .ok () u) :
    ∃ v, registerSynced x.1 x.2 w = .ok () v ∧ registerEach xs v = .ok () u := by
  change (registerSynced x.1 x.2 >>= fun _ => registerEach xs) w = .ok () u at h
  cases hx : registerSynced x.1 x.2 w with
  | ok _ v =>
    rw [bind_of_ok hx] at h
    exact ⟨v, rfl, h⟩
  | error d v =>
    rw [bind_of_error hx] at h
    cases h

/-- What each registration keeps, several keep. -/
theorem registerEach_keeps {I : World κ → Prop}
    (hI : ∀ {k : κ} {codec w u}, registerSynced k codec w = .ok () u → I w → I u)
    (h : registerEach xs w = .ok () u) (hw : I w) : I u := by
  induction xs generalizing w with
  | nil =>
    cases h
    exact hw
  | cons x xs ih =>
    obtain ⟨v, hx, hxs⟩ := registerEach_cons_ok h
    exact ih hxs (hI hx hw)

theorem tagsDistinct_registerEach (hw : w.TagsDistinct) (h : registerEach xs w = .ok () u) :
    u.TagsDistinct :=
  registerEach_keeps (fun hx hw => tagsDistinct_registerSynced hw hx) h hw

/-- All that were to be registered are, when that is done. -/
theorem carries_of_registerEach (h : registerEach xs w = .ok () u) : ∀ x ∈ xs, u.Carries x.1 := by
  induction xs generalizing w with
  | nil => exact fun _ hx => (List.not_mem_nil hx).elim
  | cons x xs ih =>
    obtain ⟨v, hx, hxs⟩ := registerEach_cons_ok h
    have hown : u.Carries x.1 :=
      registerEach_keeps (fun hy => (carries_of_registerSynced hy).2 x.1) hxs
        (carries_of_registerSynced hx).1
    intro y hy
    rcases List.mem_cons.mp hy with rfl | hy
    · exact hown
    · exact ih hxs y hy

/-- Some kinds are registered to no effect exactly if they had been before, for snapshots. -/
theorem registerEach_eq_self_iff (hw : w.TagsDistinct) (h : registerEach xs w = .ok () u) :
    u = w ↔ ∀ x ∈ xs, w.Carries x.1 := by
  constructor
  · rintro rfl
    exact carries_of_registerEach h
  · intro hall
    induction xs generalizing w with
    | nil =>
      cases h
      rfl
    | cons x xs ih =>
      obtain ⟨v, hx, hxs⟩ := registerEach_cons_ok h
      have hcarries := hall x List.mem_cons_self
      have hv : v = w := by
        rcases registerSynced_ok_cases hx with ⟨-, rfl⟩ | ⟨ht, -⟩
        · exact hcarries.offer_eq hw x.2
        · obtain ⟨r, hr, hk, -⟩ := hcarries
          have hsome := (ofTag?_eq_some_iff hw).mpr ⟨hr, congrArg tagOf hk⟩
          rw [ht] at hsome
          cases hsome
      subst hv
      exact ih hw hxs fun y hy => hall y (List.mem_cons_of_mem x hy)

/-- Where the registration of some kinds stops, those before are registered, and it is as
if nothing had been done only if they had been. -/
theorem exists_of_registerEach_error (hw : w.TagsDistinct) (h : registerEach xs w = .error c u) :
    ∃ ys x zs, xs = ys ++ x :: zs ∧ registerEach ys w = .ok () u ∧
      registerSynced x.1 x.2 u = .error c u ∧ (∀ y ∈ ys, u.Carries y.1) ∧
      (u = w ↔ ∀ y ∈ ys, w.Carries y.1) := by
  obtain ⟨ys, x, zs, v, rfl, hys, hx⟩ := exists_of_forM_error h
  have hys : registerEach ys w = .ok () v := hys
  have huv : u = v := eq_of_registerSynced_error (tagsDistinct_registerEach hw hys) hx
  subst huv
  exact ⟨ys, x, zs, rfl, hys, hx, carries_of_registerEach hys,
    registerEach_eq_self_iff hw hys⟩

/-! ### Components -/

variable {e : Handle}

theorem add_of_isRegistered (hk : w.isRegistered k) (he : w.isAlive e) (v : Value k) :
    add k e v w = .ok () (w.write k e (some v)) := by
  rw [add_eq, refusal?_eq_none_iff.mpr ⟨hk, he⟩]

theorem add_of_not_isRegistered (hk : ¬ w.isRegistered k) (e : Handle) (v : Value k) :
    add k e v w = .error (.notRegistered (typeName k)) w := by
  have hrefusal : w.refusal? k e = some (.notRegistered (typeName k)) := by
    unfold refusal?
    rw [if_pos (by simpa using hk)]
  rw [add_eq, hrefusal]

end World

/-! ### Stars -/

namespace World

/-- The kinds that a star is made of are registered. -/
def Starry (w : World (Stocked κ)) : Prop := w.isRegistered .star ∧ w.isRegistered .transform

/-- The world after somebody came, with a star and a place. -/
def alight (w : World (Stocked κ)) (e : Handle) (pool : SlotPool) (star : Star)
    (place : Transform) : World (Stocked κ) :=
  ((w.enter e pool).write (.star : Stocked κ) e (some star)).write (.transform : Stocked κ) e
    (some place)

/-- Where the making of stars stops, and what world it leaves. -/
inductive StarsStop (w : World (Stocked κ)) : WorldError → World (Stocked κ) → Prop where
  /-- There was no slot to begin with. -/
  | full {pool : SlotPool} : SlotPool.spawn w.pool = .error .exhausted pool →
      StarsStop w (.handle .exhausted) w
  /-- Somebody came, and was given nothing. -/
  | starless {e : Handle} {pool : SlotPool} : SlotPool.spawn w.pool = .ok e pool →
      ¬ w.isRegistered .star →
        StarsStop w (.notRegistered (typeName (.star : Stocked κ))) (w.enter e pool)
  /-- Somebody came, and was given a star but no place. -/
  | placeless {e : Handle} {pool : SlotPool} (star : Star) : SlotPool.spawn w.pool = .ok e pool →
      w.isRegistered .star → ¬ w.isRegistered .transform →
        StarsStop w (.notRegistered (typeName (.transform : Stocked κ)))
          ((w.enter e pool).write (.star : Stocked κ) e (some star))
  /-- Some stars were made, and no slot was left for the others. -/
  | midway {e : Handle} {pool : SlotPool} {u : World (Stocked κ)} :
      SlotPool.spawn w.pool = .ok e pool → w.Starry → u.isAlive e →
        (∀ e', w.isAlive e' → u.isAlive e') → StarsStop w (.handle .exhausted) u

variable {w u : World (Stocked κ)} {e : Handle} {pool : SlotPool} {c : WorldError}

theorem isAlive_alight_iff (he : w.pool.Enters e pool) {star : Star} {place : Transform}
    {e' : Handle} : (w.alight e pool star place).isAlive e' ↔ e' = e ∨ w.isAlive e' :=
  he.isAlive_iff

/-- Who comes and is given a star changes nothing about the kinds. -/
theorem isRegistered_lit (w : World (Stocked κ)) (e : Handle) (pool : SlotPool) (star : Star)
    (k : Stocked κ) :
    ((w.enter e pool).write (.star : Stocked κ) e (some star)).isRegistered k = w.isRegistered k :=
  isRegistered_eq_of_forms (forms_write e _) k

theorem starry_alight_iff {star : Star} {place : Transform} :
    (w.alight e pool star place).Starry ↔ w.Starry := by
  have hforms : (w.alight e pool star place).forms = w.forms :=
    (forms_write e _).trans (forms_write e _)
  unfold Starry
  rw [isRegistered_eq_of_forms hforms, isRegistered_eq_of_forms hforms]

/-- Nobody goes when stars are made. -/
theorem StarsStop.isAlive_mono (h : w.StarsStop c u) (hp : w.pool.WellFormed) (ha : w.isAlive e) :
    u.isAlive e := by
  cases h with
  | full => exact ha
  | starless hs => exact (SlotPool.enters_of_spawn hp hs).isAlive_iff.mpr (Or.inr ha)
  | placeless star hs => exact (SlotPool.enters_of_spawn hp hs).isAlive_iff.mpr (Or.inr ha)
  | midway _ _ _ hmono => exact hmono e ha

/-- If there was a slot, the one who takes it stays. -/
theorem StarsStop.isAlive_of_spawn (h : w.StarsStop c u) (hp : w.pool.WellFormed)
    (hs : SlotPool.spawn w.pool = .ok e pool) : ¬ w.isAlive e ∧ u.isAlive e := by
  have henters := SlotPool.enters_of_spawn hp hs
  refine ⟨henters.not_isAlive rfl, ?_⟩
  cases h with
  | full hfull =>
    rw [hs] at hfull
    cases hfull
  | starless hs' | placeless star hs' =>
    rw [hs] at hs'
    cases hs'
    exact henters.isAlive_iff.mpr (Or.inl rfl)
  | midway hs' _ ha =>
    rw [hs] at hs'
    cases hs'
    exact ha

/-- Where the kinds are registered nothing can be wanting but a slot. -/
theorem StarsStop.eq_exhausted (h : w.StarsStop c u) (hk : w.Starry) : c = .handle .exhausted := by
  cases h with
  | full | midway => rfl
  | starless _ hnone => exact (hnone hk.1).elim
  | placeless _ _ _ hnone => exact (hnone hk.2).elim

/-- The world is as before only if there was no slot to begin with. -/
theorem StarsStop.eq_self_iff (h : w.StarsStop c u) (hp : w.pool.WellFormed) :
    u = w ↔ ∃ pool, SlotPool.spawn w.pool = .error .exhausted pool := by
  cases hs : SlotPool.spawn w.pool with
  | ok e pool =>
    obtain ⟨hdead, halive⟩ := h.isAlive_of_spawn hp hs
    exact iff_of_false (fun heq => hdead (heq ▸ halive)) nofun
  | error cause pool =>
    obtain ⟨rfl, -⟩ := SlotPool.full_of_spawn_error hp hs
    refine iff_of_true ?_ ⟨pool, rfl⟩
    cases h with
    | full => rfl
    | starless hs' | placeless star hs' | midway hs' =>
      rw [hs] at hs'
      cases hs'

end World

namespace Simulation

open World

variable {s t : Simulation κ} {w : World (Stocked κ)} {e : Handle} {pool : SlotPool} {c : WorldError}

/-- The star of the `i`th entity. -/
def starOf (i : Nat) : Star := Star.mk (Single.ofNat (i % 4 + 1) / .ofNat 4)

/-- The place of the `i`th of `n` entities. -/
def placeOf (rules : Rules) (n i : Nat) : Transform :=
  Transform.ofPosition
    ⟨rules.width * .ofNat i / .ofNat (max n 1), .ofNat (i * 37 % 600), -(starOf i).depth⟩

theorem spawnStar_eq_of_spawn (hs : SlotPool.spawn w.pool = .ok e pool) (rules : Rules) (n i : Nat) :
    spawnStar rules n i w = (do
        World.add (.star : Stocked κ) e (starOf i)
        World.add (.transform : Stocked κ) e (placeOf rules n i)
        return e : World.Action (Stocked κ) Handle) (w.enter e pool) := bind_of_ok (spawn_of_ok hs)

theorem add_star_of_spawn (hp : w.pool.WellFormed) (hs : SlotPool.spawn w.pool = .ok e pool)
    (hk : w.isRegistered .star) (star : Star) :
    World.add (.star : Stocked κ) e star (w.enter e pool) =
      .ok () ((w.enter e pool).write (.star : Stocked κ) e (some star)) := by
  have hentered : (w.enter e pool).isRegistered .star := hk
  have halive : (w.enter e pool).isAlive e :=
    (SlotPool.enters_of_spawn hp hs).isAlive_iff.mpr (Or.inl rfl)
  exact add_of_isRegistered hentered halive star

/-- Where there is a slot and the kinds are registered, the star and its place are made. -/
theorem spawnStar_of_ok (hp : w.pool.WellFormed) (hk : w.Starry)
    (hs : SlotPool.spawn w.pool = .ok e pool) (rules : Rules) (n i : Nat) :
    spawnStar rules n i w = .ok e (w.alight e pool (starOf i) (placeOf rules n i)) := by
  have halive : (w.enter e pool).isAlive e :=
    (SlotPool.enters_of_spawn hp hs).isAlive_iff.mpr (Or.inl rfl)
  have hkinds := (isRegistered_lit w e pool (starOf i) .transform).trans hk.2
  have hplaced := add_of_isRegistered hkinds halive (placeOf rules n i)
  exact (spawnStar_eq_of_spawn hs rules n i).trans
    ((bind_of_ok (add_star_of_spawn hp hs hk.1 _)).trans (bind_of_ok hplaced))

/-- A star is made, or it is told where that stops. -/
theorem spawnStar_cases (hp : w.pool.WellFormed) (rules : Rules) (n i : Nat) :
    (∃ c u, spawnStar rules n i w = .error c u ∧ w.StarsStop c u) ∨
      ∃ e pool star place, SlotPool.spawn w.pool = .ok e pool ∧ w.Starry ∧
        spawnStar rules n i w = .ok e (w.alight e pool star place) := by
  cases hs : SlotPool.spawn w.pool with
  | error cause pool =>
    obtain ⟨rfl, -⟩ := SlotPool.full_of_spawn_error hp hs
    exact Or.inl ⟨_, _, bind_of_error (spawn_of_error hs), .full hs⟩
  | ok e pool =>
    have hstart := spawnStar_eq_of_spawn hs rules n i
    by_cases hk : w.isRegistered .star
    · by_cases hk' : w.isRegistered .transform
      · exact Or.inr ⟨e, pool, _, _, rfl, ⟨hk, hk'⟩, spawnStar_of_ok hp ⟨hk, hk'⟩ hs rules n i⟩
      · have hkinds := isRegistered_lit w e pool (starOf i) .transform
        have hnone := add_of_not_isRegistered (fun h => hk' (hkinds.symm.trans h)) e
          (placeOf rules n i)
        exact Or.inl ⟨_, _, hstart.trans ((bind_of_ok (add_star_of_spawn hp hs hk _)).trans
          (bind_of_error hnone)), .placeless (starOf i) hs hk hk'⟩
    · have hentered : ¬ (w.enter e pool).isRegistered .star := hk
      exact Or.inl ⟨_, _, hstart.trans (bind_of_error (add_of_not_isRegistered hentered e _)),
        .starless hs hk⟩

/-- Where the making of several stars stops. -/
theorem starsStop_of_mapM (hp : s.world.pool.WellFormed) (rules : Rules) (n : Nat) {is : List Nat}
    (h : (is.mapM fun i => inWorld (spawnStar rules n i)) s = .error c t) :
    s.world.StarsStop c t.world := by
  induction is generalizing s with
  | nil => cases h
  | cons i is ih =>
    rw [List.mapM_cons] at h
    rcases spawnStar_cases hp rules n i with ⟨d, u, hfail, hstop⟩ |
      ⟨e, pool, star, place, hs, hk, hmade⟩
    · rw [bind_of_error (inWorld_of_error hfail)] at h
      cases h
      exact hstop
    · have henters := SlotPool.enters_of_spawn hp hs
      have hpool : (s.world.alight e pool star place).pool.WellFormed :=
        SlotPool.wellFormed_of_spawn hp hs
      rw [bind_of_ok (inWorld_of_ok hmade)] at h
      cases hrest : (is.mapM fun i => inWorld (spawnStar rules n i))
          { s with world := s.world.alight e pool star place } with
      | ok es v =>
        rw [bind_of_ok hrest] at h
        cases h
      | error d v =>
        rw [bind_of_error hrest] at h
        cases h
        -- the others begin in a world where nothing can be wanting but a slot
        have hstop : (s.world.alight e pool star place).StarsStop c t.world :=
          ih (s := { s with world := _ }) hpool hrest
        have hmono : ∀ e', e' = e ∨ s.world.isAlive e' → t.world.isAlive e' := fun e' ha =>
          hstop.isAlive_mono hpool ((isAlive_alight_iff henters).mpr ha)
        rw [hstop.eq_exhausted (starry_alight_iff.mpr hk)]
        exact .midway hs hk (hmono e (Or.inl rfl)) fun e' ha => hmono e' (Or.inr ha)

theorem starsStop_of_error (hp : s.world.pool.WellFormed) {n : Nat}
    (h : spawnStars n s = .error c t) : s.world.StarsStop c t.world :=
  starsStop_of_mapM hp s.rules n h

/-- The stock kinds, in the order of their registration. -/
def stock : List ((k : Stocked κ) × Codec (Value k)) :=
  [⟨.transform, Transform.codec⟩, ⟨.uiTransform, UITransform.codec⟩,
    ⟨.particle, Particle.codec⟩, ⟨.star, Star.codec⟩]

/-- **What stops midway stays midway.** If the stock kinds cannot all be registered, those
before the one that is refused are registered, and the world is as before exactly if
they had been, with codecs. If stars cannot be made, the world is as before exactly if
there was no slot for the first of them. -/
theorem stopped_midway (hw : s.world.Exposed) :
    (∀ c u, registerStock s.world = .error c u → ∃ ys x zs, stock = ys ++ x :: zs ∧
      registerEach ys s.world = .ok () u ∧ registerSynced x.1 x.2 u = .error c u ∧
      (∀ y ∈ ys, u.Carries y.1) ∧ (u = s.world ↔ ∀ y ∈ ys, s.world.Carries y.1)) ∧
    ∀ n c t, spawnStars n s = .error c t → s.world.StarsStop c t.world ∧
      (t.world = s.world ↔ ∃ pool, SlotPool.spawn s.world.pool = .error .exhausted pool) := by
  refine ⟨fun c u h => ?_, fun n c t h => ?_⟩
  · rw [registerStock_eq] at h
    exact exists_of_registerEach_error hw.tagsDistinct h
  · have hstop := starsStop_of_error hw.pool_wellFormed h
    exact ⟨hstop, hstop.eq_self_iff hw.pool_wellFormed⟩

/-- A scene that knows stars but no places. -/
def unplaced : Simulation Empty where
  rules := {}
  world := undergo {} [.operate (.registerSynced .star Star.codec)]

/-- A star that is asked for there fails and leaves another world. -/
theorem stopped_midway_unplaced : unplaced.world.Exposed ∧
    ∃ c t, spawnStars 1 unplaced = .error c t ∧ t.world ≠ unplaced.world := by
  have hw : unplaced.world.Exposed := exposed_undergo (s := {}) rfl _
  refine ⟨hw, ?_⟩
  cases h : spawnStars 1 unplaced with
  | ok es t =>
    have hfails : (failed? (spawnStars 1) unplaced).isSome = true := by decide +kernel
    rw [failed?_of_ok h] at hfails
    cases hfails
  | error c t =>
    refine ⟨c, t, rfl, fun heq => ?_⟩
    obtain ⟨pool, hfull⟩ := ((stopped_midway hw).2 1 c t h).2.mp heq
    cases hfull

/-- A world that refuses to register a kind again, and has one of the stock kinds. -/
def rejectsRepeats : World (Stocked Empty) :=
  undergo { settings := { repeats := .reject } } [.operate (.registerSynced .particle Particle.codec)]

/-- Registering the stock kinds fails there, and two more are registered. The star that
cannot be placed is there. -/
theorem not_undone :
    rejectsRepeats.types.map (·.2) = ["Particle"] ∧
      (failed? registerStock rejectsRepeats).map (fun x => x.2.types.map (·.2)) =
        some ["Particle", "Transform", "UITransform"] ∧
      unplaced.world.entities = [] ∧
      (failed? (spawnStars 1) unplaced).map (fun x => (x.2.world.entities,
        x.2.world.typesOf ⟨0, 0⟩)) = some ([⟨0, 0⟩], [tagOf (.star : Stocked Empty)]) := by
  exact ⟨by decide +kernel, by decide +kernel, by decide +kernel, by decide +kernel⟩

end Simulation
end EntityWorld
