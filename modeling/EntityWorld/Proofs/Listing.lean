/-
# A capture is a listing

A capture lists each component that takes part in snapshots once: the entities come
in the order of their slots, the components of one entity in the order in which their
kinds were registered (`World.Precedes`). It does not matter what else the columns
have, so all this holds of a world that was changed from outside as well.

A capture of changes goes through the same components and leaves some out. It is the
part of the whole listing that was written after its version, and the later the
version the less there is in it.

Key definitions: `World.rank`, `World.Precedes`.
Key theorems: `World.pairwise_captureWhere`, `World.captureWhere_eq_filter`,
`World.Exposed.capture_lists`.
-/
import EntityWorld.Proofs.Values
import Mathlib.Tactic

namespace EntityWorld.World

variable {κ : Type} [Family κ]

/-- How many kinds were registered before the one that a tag stands for. -/
def rank (w : World κ) (t : TypeTag) : Nat := w.registrations.findIdx (·.tag == t)

/-- An entry comes before another: its slot does, or the slots are the same and its kind
was registered earlier. -/
def Precedes (w : World κ) (x y : SnapshotEntry) : Prop :=
  x.index < y.index ∨ x.index = y.index ∧ w.rank x.tag < w.rank y.tag

variable {w : World κ} {keep : Handle → TypeTag → Bool}

/-! ### The order of the entries -/

theorem rank_getElem (hw : w.TagsDistinct) {i : Nat} (hi : i < w.registrations.length) :
    w.rank w.registrations[i].tag = i := by
  refine (List.findIdx_eq hi).mpr ⟨beq_self_eq_true _, fun j hj => beq_false_of_ne ?_⟩
  exact List.pairwise_iff_getElem.mp (List.pairwise_map.mp hw) j i (hj.trans hi) hi hj

/-- The registered kinds are in the order of their ranks. -/
theorem pairwise_rank (hw : w.TagsDistinct) :
    w.registrations.Pairwise fun r r' => w.rank r.tag < w.rank r'.tag := by
  rw [List.pairwise_iff_getElem]
  intro i j hi hj hij
  rw [rank_getElem hw hi, rank_getElem hw hj]
  exact hij

/-- The entry of a component of a kind, if there is one to list. -/
theorem eq_of_listed {e : Handle} {r : Registration κ} {x : SnapshotEntry}
    (h : (if keep e r.tag then
        (r.encode? e.slot).map fun data => { index := e.index, tag := r.tag, data := data }
      else none) = some x) : x.index = e.index ∧ x.tag = r.tag := by
  split at h
  · obtain ⟨d, -, rfl⟩ := Option.map_eq_some_iff.mp h
    exact ⟨rfl, rfl⟩
  · cases h

/-- The entries of a capture come one after another. -/
theorem pairwise_captureWhere (hp : w.pool.WellFormed) (hw : w.TagsDistinct) :
    (w.captureWhere keep).entries.Pairwise w.Precedes := by
  refine List.pairwise_flatMap.mpr ⟨fun e _ => ?_, ?_⟩
  -- the components of one entity
  · refine List.pairwise_filterMap.mpr ((pairwise_rank hw).imp fun hlt x hx y hy => ?_)
    obtain ⟨hi, ht⟩ := eq_of_listed hx
    obtain ⟨hi', ht'⟩ := eq_of_listed hy
    exact Or.inr ⟨hi.trans hi'.symm, by rwa [ht, ht']⟩
  -- those of two entities
  · refine hp.alive_ascending.imp fun hlt x hx y hy => ?_
    obtain ⟨r, -, hx⟩ := List.mem_filterMap.mp hx
    obtain ⟨r', -, hy⟩ := List.mem_filterMap.mp hy
    exact Or.inl (by rwa [(eq_of_listed hx).1, (eq_of_listed hy).1])

theorem Precedes.key_ne {x y : SnapshotEntry} (h : w.Precedes x y) :
    (x.index, x.tag) ≠ (y.index, y.tag) := by
  intro heq
  obtain ⟨hi, ht⟩ := Prod.mk.inj heq
  rcases h with hlt | ⟨-, hlt⟩
  · exact UInt32.lt_irrefl _ (hi ▸ hlt)
  · exact Nat.lt_irrefl _ (ht ▸ hlt)

/-! ### What is left out -/

/-- A capture of some components is the part of the whole capture that lists them. -/
theorem captureWhere_eq_filter (hp : w.pool.WellFormed) (keep : Handle → TypeTag → Bool) :
    (w.captureWhere keep).entries =
      w.capture.entries.filter fun x => keep (w.pool.current x.index) x.tag := by
  have hall : w.capture.entries = w.pool.alive.flatMap fun e => w.registrations.filterMap fun r =>
      (r.encode? e.slot).map fun d => (⟨e.index, r.tag, d⟩ : SnapshotEntry) := rfl
  rw [hall, List.filter_flatMap]
  refine List.flatMap_congr fun e he => ?_
  rw [List.filter_filterMap]
  refine List.filterMap_congr fun r _ => ?_
  have hcurrent := SlotPool.eq_current_of_isAlive ((SlotPool.mem_alive_iff hp).mp he)
  cases r.encode? e.slot with
  | none => exact ite_self none
  | some d =>
    change (if keep e r.tag = true then _ else _) = Option.filter _ (some _)
    rw [Option.filter_some, ← hcurrent]
    rfl

/-! ### The whole listing -/

variable [DecidableEq κ]

/-- An entry is a component that takes part in snapshots, of a live entity, with what its
codec writes. -/
theorem mem_capture_iff (hp : w.pool.WellFormed) (hw : w.TagsDistinct) {x : SnapshotEntry} :
    x ∈ w.capture.entries ↔ ∃ e k, ∃ c : Codec (Value k), ∃ v, w.isAlive e ∧ e.index = x.index ∧
      w.synced? x.tag = some ⟨k, c⟩ ∧ w.get? k e = some v ∧ c.encode v = x.data := by
  refine (mem_captureWhere_iff hp hw).trans (exists_congr fun e => ?_)
  have hbytes : w.isAlive e → (w.bytes? e.slot x.tag = some x.data ↔
      ∃ k, ∃ c : Codec (Value k), ∃ v, w.synced? x.tag = some ⟨k, c⟩ ∧ w.get? k e = some v ∧
        c.encode v = x.data) := by
    intro he
    rw [← payload?_of_isAlive he, payload?_eq_map hw, Option.bind_eq_some_iff]
    constructor
    · rintro ⟨⟨k, c⟩, hs, hd⟩
      obtain ⟨v, hv, hd⟩ := Option.map_eq_some_iff.mp hd
      exact ⟨k, c, v, hs, hv, hd⟩
    · rintro ⟨k, c, v, hs, hv, hd⟩
      exact ⟨⟨k, c⟩, hs, Option.map_eq_some_iff.mpr ⟨v, hv, hd⟩⟩
  constructor
  · rintro ⟨he, hi, -, hb⟩
    obtain ⟨k, c, v, hs, hv, hd⟩ := (hbytes he).mp hb
    exact ⟨k, c, v, he, hi, hs, hv, hd⟩
  · rintro ⟨k, c, v, he, hi, hs, hv, hd⟩
    exact ⟨he, hi, rfl, (hbytes he).mpr ⟨k, c, v, hs, hv, hd⟩⟩

/-- **A capture is a listing of the components.** Whatever a world went through, its capture
has the components of the live entities whose kinds take part in snapshots, with what
their codecs write, and nothing else. They are in the order of slots and registrations,
so that none comes twice. The capture of the changes since a version is the part of it
that was written later, and the later the version the less is in it. -/
theorem Exposed.capture_lists (h : w.Exposed) :
    (∀ x, x ∈ w.capture.entries ↔ ∃ e k, ∃ c : Codec (Value k), ∃ v, w.isAlive e ∧
      e.index = x.index ∧ w.synced? x.tag = some ⟨k, c⟩ ∧ w.get? k e = some v ∧
      c.encode v = x.data) ∧
    w.capture.entries.Pairwise w.Precedes ∧
    (w.capture.entries.map fun x => (x.index, x.tag)).Nodup ∧
    (∀ v, (w.captureSince v).entries = w.capture.entries.filter fun x =>
      (w.journal.updatedAt? (w.pool.current x.index) x.tag).any (v < ·)) ∧
    ∀ v u, v ≤ u → (w.captureSince u).entries.Sublist (w.captureSince v).entries := by
  have hp := h.pool_wellFormed
  have hordered : w.capture.entries.Pairwise w.Precedes :=
    pairwise_captureWhere hp h.tagsDistinct
  have hsince : ∀ v, (w.captureSince v).entries = w.capture.entries.filter fun x =>
      (w.journal.updatedAt? (w.pool.current x.index) x.tag).any (v < ·) :=
    fun v => captureWhere_eq_filter hp _
  refine ⟨fun x => mem_capture_iff hp h.tagsDistinct, hordered, ?_, hsince, fun v u hvu => ?_⟩
  · exact List.pairwise_map.mpr (hordered.imp fun hxy => hxy.key_ne)
  · rw [hsince, hsince]
    refine List.monotone_filter_right _ fun x hx => ?_
    obtain ⟨n, hn, hlt⟩ := (Option.any_eq_true _ _).mp hx
    refine (Option.any_eq_true _ _).mpr ⟨n, hn, ?_⟩
    exact decide_eq_true (hvu.trans_lt (of_decide_eq_true hlt))

/-- A star at a place, a star without one and a particle. The slot between them is vacant,
but a star was put there from outside. -/
def strayStar : World (Stocked Empty) :=
  undergo {} [.operate (.registerSynced .transform Transform.codec),
    .operate (.registerSynced .star Star.codec), .operate (.register .particle),
    .operate .spawn, .operate .spawn, .operate .spawn, .operate (.kill ⟨1, 0⟩),
    .column .star (·.insert 1 {}), .operate (.add .star ⟨0, 0⟩ {}),
    .operate (.add .transform ⟨0, 0⟩ {}), .operate (.setVersion 2),
    .operate (.add .particle ⟨2, 0⟩ {}), .operate (.add .star ⟨2, 0⟩ {})]

/-- The stars of the living and the place are listed, and the star written last is among
the changes since the version before it. -/
theorem capture_lists_strayStar :
    (strayStar.capture.entries.map fun x => (x.index, x.tag)) =
      [(0, tagOf (.transform : Stocked Empty)), (0, tagOf (.star : Stocked Empty)),
        (2, tagOf (.star : Stocked Empty))] ∧
    (strayStar.capture.entries.map fun x => (x.index, x.tag)).Nodup ∧
    strayStar.capture.entries.Pairwise strayStar.Precedes ∧
    (strayStar.captureSince 1).entries.Sublist (strayStar.captureSince 0).entries ∧
    (strayStar.captureSince 1).size = 1 := by
  have hexposed : strayStar.Exposed := exposed_undergo (s := {}) rfl _
  obtain ⟨-, hordered, hnodup, -, hless⟩ := hexposed.capture_lists
  exact ⟨by decide +kernel, hnodup, hordered, hless 0 1 (by decide), by decide +kernel⟩

end EntityWorld.World
