/-
# What a capture lists

A capture goes through the live entities and, for each, through the registered
kinds. In a well-formed world slot and tag name an entity and a kind, so that an
entry of a capture is a live entity, a tag and the bytes of the component
(`mem_captureWhere_iff`), and what a capture has under an index and a tag
(`Snapshot.dataAt?`) is the payload of the one entity there.

Key definitions: `Snapshot.dataAt?`.
Key theorems: `World.mem_captureWhere_iff`, `World.dataAt?_captureWhere`.
-/
import EntityWorld.Proofs.Partition
import EntityWorld.Proofs.WellFormed
import Mathlib.Tactic

namespace EntityWorld

/-- The payload of the first entry under an index and a tag. -/
def Snapshot.dataAt? (s : Snapshot) (i : UInt32) (t : TypeTag) : Option (List UInt8) :=
  (s.entries.find? fun x => x.index == i && x.tag == t).map (·.data)

/-! ### The entries of a capture -/

variable {κ : Type} [Family κ]

namespace World

variable {w : World κ} {e : Handle} {t : TypeTag} {keep : Handle → TypeTag → Bool}

theorem bytes?_of_mem (hw : w.TagsDistinct) {r : Registration κ} (hr : r ∈ w.registrations)
    (i : Nat) : w.bytes? i r.tag = r.encode? i := by
  have ht : w.ofTag? r.tag = some r := (ofTag?_eq_some_iff hw).mpr ⟨hr, rfl⟩
  rw [bytes?, ht]
  rfl

/-- An entry is a component of a live entity with its bytes. -/
theorem mem_captureWhere_iff (hp : w.pool.WellFormed) (ht : w.TagsDistinct) {x : SnapshotEntry} :
    x ∈ (w.captureWhere keep).entries ↔ ∃ e, w.isAlive e ∧ e.index = x.index ∧
      keep e x.tag = true ∧ w.bytes? e.slot x.tag = some x.data := by
  have hunfold : x ∈ (w.captureWhere keep).entries ↔
      ∃ e ∈ w.pool.alive, ∃ r ∈ w.registrations, (if keep e r.tag then
        (r.encode? e.slot).map fun data => { index := e.index, tag := r.tag, data := data }
      else none) = some x := by
    simp only [captureWhere, List.mem_flatMap, List.mem_filterMap, entities]
  rw [hunfold]
  constructor
  · rintro ⟨e, he, r, hr, hx⟩
    split at hx
    · next hk =>
      obtain ⟨data, hd, rfl⟩ := Option.map_eq_some_iff.mp hx
      refine ⟨e, (SlotPool.mem_alive_iff hp).mp he, rfl, hk, ?_⟩
      rw [bytes?_of_mem ht hr, hd]
    · cases hx
  · rintro ⟨e, he, hi, hk, hb⟩
    obtain ⟨r, hr, hd⟩ := Option.bind_eq_some_iff.mp hb
    have htag := tag_of_ofTag? hr
    refine ⟨e, (SlotPool.mem_alive_iff hp).mpr he, r, mem_of_ofTag? hr, ?_⟩
    rw [htag, if_pos hk, hd, hi]
    rfl

/-- What a capture has under the index of a live entity is the entity's. -/
theorem dataAt?_captureWhere (hw : w.WellFormed) (he : w.isAlive e) :
    (w.captureWhere keep).dataAt? e.index t = if keep e t then w.bytes? e.slot t else none := by
  have hmem : ∀ d, ⟨e.index, t, d⟩ ∈ (w.captureWhere keep).entries ↔
      keep e t = true ∧ w.bytes? e.slot t = some d := by
    intro d
    rw [mem_captureWhere_iff hw.pool hw.tagsDistinct]
    constructor
    · rintro ⟨e', he', hi, hrest⟩
      have heq : e' = e := SlotPool.eq_of_isAlive he' he (congrArg UInt32.toNat hi)
      exact heq ▸ hrest
    · exact fun h => ⟨e, he, rfl, h⟩
  unfold Snapshot.dataAt?
  cases hf : (w.captureWhere keep).entries.find? fun x => x.index == e.index && x.tag == t with
  | some x =>
    obtain ⟨i, t', d⟩ := x
    have hx := List.find?_some hf
    simp only [Bool.and_eq_true, beq_iff_eq] at hx
    obtain ⟨rfl, rfl⟩ := hx
    obtain ⟨hk, hb⟩ := (hmem d).mp (List.mem_of_find?_eq_some hf)
    rw [if_pos hk, hb]
    rfl
  | none =>
    symm
    split
    · next hk =>
      cases hb : w.bytes? e.slot t with
      | none => rfl
      | some d =>
        have hin := (hmem d).mpr ⟨hk, hb⟩
        have hno := List.find?_eq_none.mp hf _ hin
        exact absurd hno (by simp)
    · rfl

end World
end EntityWorld
