/-
# What the changes do to components

Two questions are asked of a slot and a tag: whether there is a component
(`World.holds`), and what its bytes are (`World.bytes?`). Here is how each
change of a world answers them from the answers before it. A change to a column
is told by what it does to the slot in question, and of all tags it concerns
that of its kind only; an entity that goes takes the components of its slot
with it; and a kind that comes new has none.

Key theorems: `World.holds_rework`, `World.bytes?_rework`, `World.holds_leave`,
`World.bytes?_leave`, `World.holds_enroll`, `World.bytes?_enroll`,
`World.bytes?_offer`.
-/
import EntityWorld.Proofs.Changes
import EntityWorld.Proofs.Columns
import Mathlib.Tactic

namespace EntityWorld

variable {κ : Type} [Family κ]

namespace World

variable {w : World κ} {i : Nat} {t : TypeTag}

theorem holds_of_mem (hw : w.TagsDistinct) {r : Registration κ} (hr : r ∈ w.registrations) :
    w.holds i r.tag = r.column.contains i := by
  have ht : w.ofTag? r.tag = some r := (ofTag?_eq_some_iff hw).mpr ⟨hr, rfl⟩
  rw [holds, ht]
  rfl

/-- The kind and codec that a tag stands for. -/
theorem synced?_eq : w.synced? t = (w.ofTag? t).bind (·.synced?) := rfl

/-! ### An entity goes -/

theorem ofTag?_leave (e : Handle) (pool : SlotPool) :
    (w.leave e pool).ofTag? t = (w.ofTag? t).map (·.erase e.slot) :=
  find?_tag_map (fun _ => Registration.tag_erase _ _) _ _

theorem holds_leave (e : Handle) (pool : SlotPool) :
    (w.leave e pool).holds i t = if i = e.slot then false else w.holds i t := by
  rw [holds, holds, ofTag?_leave]
  cases w.ofTag? t with
  | none => simp
  | some r => exact Column.contains_erase r.column e.slot i

theorem bytes?_leave (e : Handle) (pool : SlotPool) :
    (w.leave e pool).bytes? i t = if i = e.slot then none else w.bytes? i t := by
  rw [bytes?, bytes?, ofTag?_leave]
  cases w.ofTag? t with
  | none => simp
  | some r =>
    change (r.erase e.slot).encode? i = if i = e.slot then none else r.encode? i
    have hg : (r.erase e.slot).column.get? i = if i = e.slot then none else r.column.get? i :=
      Column.get?_erase _ _ _
    rw [Registration.encode?_eq, Registration.encode?_eq, hg]
    change (r.codec.bind fun codec => _) = _
    split
    · cases r.codec <;> rfl
    · rfl

/-! ### A kind comes -/

variable {k : κ}

theorem ofTag?_enroll (codec : Option (Codec (Value k))) :
    (w.enroll k codec).ofTag? t =
      (w.ofTag? t).or (if tagOf k = t then some { kind := k, codec := codec } else none) := by
  unfold ofTag? enroll
  rw [List.find?_append, List.find?_singleton]
  congr 1
  exact if_congr beq_iff_eq rfl rfl

/-- A tag that stood for a kind stands for it still. -/
theorem ofTag?_enroll_of_some (codec : Option (Codec (Value k))) {r : Registration κ}
    (h : w.ofTag? t = some r) : (w.enroll k codec).ofTag? t = some r := by
  rw [ofTag?_enroll, h]
  rfl

theorem holds_enroll (codec : Option (Codec (Value k))) :
    (w.enroll k codec).holds i t = w.holds i t := by
  cases h : w.ofTag? t with
  | some r => rw [holds, holds, ofTag?_enroll_of_some codec h, h]
  | none =>
    rw [holds, holds, ofTag?_enroll, h]
    by_cases ht : tagOf k = t
    · rw [if_pos ht]
      rfl
    · rw [if_neg ht]
      rfl

theorem bytes?_enroll (codec : Option (Codec (Value k))) :
    (w.enroll k codec).bytes? i t = w.bytes? i t := by
  cases h : w.ofTag? t with
  | some r => rw [bytes?, bytes?, ofTag?_enroll_of_some codec h, h]
  | none =>
    rw [bytes?, bytes?, ofTag?_enroll, h]
    by_cases ht : tagOf k = t
    · rw [if_pos ht]
      exact Registration.encode?_eq_none rfl
    · rw [if_neg ht]
      rfl

variable [DecidableEq κ]

/-! ### A column changes -/

section Rework

variable {f : Column (Value k) → Column (Value k)}

theorem ofTag?_rework : (w.rework k f).ofTag? t = (w.ofTag? t).map (·.modifyColumn k f) :=
  find?_tag_map (fun _ => Registration.tag_modifyColumn) _ _

theorem synced?_rework : (w.rework k f).synced? t = w.synced? t := by
  rw [synced?_eq, synced?_eq, ofTag?_rework]
  cases w.ofTag? t with
  | none => rfl
  | some r => exact Registration.synced?_modifyColumn

/-- A change to a column that keeps which slots are filled. -/
theorem holds_rework (hf : t = tagOf k → ∀ c, (f c).contains i = c.contains i) :
    (w.rework k f).holds i t = w.holds i t := by
  rw [holds, holds, ofTag?_rework]
  cases h : w.ofTag? t with
  | none => rfl
  | some r =>
    change (r.modifyColumn k f).column.contains i = r.column.contains i
    by_cases hk : r.kind = k
    · have ht : t = tagOf k := (tag_of_ofTag? h).symm.trans (congrArg tagOf hk)
      exact Registration.contains_modifyColumn (hf ht)
    · rw [Registration.modifyColumn_of_ne hk]

/-- A change to a column that leaves a slot alone. -/
theorem bytes?_rework (hf : t = tagOf k → ∀ c, (f c).get? i = c.get? i) :
    (w.rework k f).bytes? i t = w.bytes? i t := by
  rw [bytes?, bytes?, ofTag?_rework]
  cases h : w.ofTag? t with
  | none => rfl
  | some r =>
    change (r.modifyColumn k f).encode? i = r.encode? i
    by_cases hk : r.kind = k
    · have ht : t = tagOf k := (tag_of_ofTag? h).symm.trans (congrArg tagOf hk)
      exact Registration.encode?_modifyColumn (hf ht)
    · rw [Registration.modifyColumn_of_ne hk]

theorem exists_ofTag?_tagOf (hw : w.TagsDistinct) (hk : w.isRegistered k) :
    ∃ c codec, w.ofTag? (tagOf k) = some ⟨k, c, codec⟩ := by
  obtain ⟨r, hr, rfl⟩ := isRegistered_iff.mp hk
  exact ⟨r.column, r.codec, (ofTag?_eq_some_iff hw).mpr ⟨hr, rfl⟩⟩

/-- A change that fills a slot, or empties it, in the column of its kind. -/
theorem holds_rework_tagOf (hw : w.TagsDistinct) (hk : w.isRegistered k) {b : Bool}
    (hf : ∀ c, (f c).contains i = b) : (w.rework k f).holds i (tagOf k) = b := by
  obtain ⟨c, codec, hr⟩ := exists_ofTag?_tagOf hw hk
  have hm : (Registration.mk k c codec).modifyColumn k f = ⟨k, f c, codec⟩ := by
    simp [Registration.modifyColumn]
  rw [holds, ofTag?_rework, hr, Option.map_some, hm]
  exact hf c

end Rework

theorem holds_write (hw : w.TagsDistinct) (hk : w.isRegistered k) (e : Handle)
    (o : Option (Value k)) : (w.write k e o).holds i t =
      if i = e.slot ∧ t = tagOf k then o.isSome else w.holds i t := by
  change (w.rework k (·.put e.slot o)).holds i t = _
  split
  · next h =>
    obtain ⟨rfl, rfl⟩ := h
    refine holds_rework_tagOf hw hk fun c => ?_
    rw [Column.contains_put, if_pos rfl]
  · next h =>
    refine holds_rework fun ht c => ?_
    rw [Column.contains_put, if_neg fun hi => h ⟨hi, ht⟩]

theorem bytes?_write (e : Handle) (o : Option (Value k)) (h : ¬ (i = e.slot ∧ t = tagOf k)) :
    (w.write k e o).bytes? i t = w.bytes? i t := by
  refine bytes?_rework fun ht c => ?_
  rw [Column.get?_put, if_neg fun hi => h ⟨hi, ht⟩]

theorem holds_discard (hw : w.TagsDistinct) (hk : w.isRegistered k) (e : Handle) :
    (w.discard k e).holds i t = if i = e.slot ∧ t = tagOf k then false else w.holds i t := by
  change (w.rework k (·.erase e.slot)).holds i t = _
  split
  · next h =>
    obtain ⟨rfl, rfl⟩ := h
    refine holds_rework_tagOf hw hk fun c => ?_
    rw [Column.contains_erase, if_pos rfl]
  · next h =>
    refine holds_rework fun ht c => ?_
    rw [Column.contains_erase, if_neg fun hi => h ⟨hi, ht⟩]

theorem bytes?_discard (e : Handle) (h : ¬ (i = e.slot ∧ t = tagOf k)) :
    (w.discard k e).bytes? i t = w.bytes? i t := by
  refine bytes?_rework fun ht c => ?_
  rw [Column.get?_erase, if_neg fun hi => h ⟨hi, ht⟩]

theorem isAlive_of_get? {e : Handle} (h : (w.get? k e).isSome) : w.isAlive e := by
  by_contra hd
  rw [get?, if_neg hd] at h
  cases h

/-- A live entity has the component that `get?` finds. -/
theorem holds_iff_get? (hw : w.TagsDistinct) (hk : w.isRegistered k) {e : Handle}
    (he : w.isAlive e) : w.holds e.slot (tagOf k) = (w.get? k e).isSome := by
  rw [holds_tagOf hw hk, get?, if_pos he]

/-! ### A kind is given a codec -/

theorem ofTag?_offer (codec : Option (Codec (Value k))) :
    (w.offer k codec).ofTag? t = (w.ofTag? t).map (·.offerCodec k codec) :=
  find?_tag_map (fun _ => Registration.tag_offerCodec) _ _

theorem holds_offer (codec : Option (Codec (Value k))) :
    (w.offer k codec).holds i t = w.holds i t := by
  rw [holds, holds, ofTag?_offer]
  cases w.ofTag? t with
  | none => rfl
  | some r => exact Registration.contains_offerCodec

/-- Where there was a codec before, or the tag is another, an offer changes nothing. -/
theorem ofTag?_offer_of_isSome (codec : Option (Codec (Value k)))
    (h : t = tagOf k → w.isRegistered k → (w.synced? t).isSome) :
    (w.offer k codec).ofTag? t = w.ofTag? t := by
  rw [ofTag?_offer]
  cases hr : w.ofTag? t with
  | none => rfl
  | some r =>
    by_cases hk : r.kind = k
    · have ht : t = tagOf k := (tag_of_ofTag? hr).symm.trans (congrArg tagOf hk)
      have hs := h ht (isRegistered_iff.mpr ⟨r, mem_of_ofTag? hr, hk⟩)
      rw [synced?_eq, hr] at hs
      rw [Option.map_some, Registration.offerCodec_of_isSome hs]
    · rw [Option.map_some, Registration.offerCodec_of_ne hk]

end World

/-! ### Kinds stay -/

/-- A registration and what becomes of it: the kind is the same, and a codec is not lost. -/
structure Registration.Keeps (r r' : Registration κ) : Prop where
  kind_eq : r'.kind = r.kind
  synced : r.synced?.isSome → r'.synced?.isSome

/-- What a tag stood for in one world it stands for in another. -/
def World.KeepsKinds (w w' : World κ) : Prop :=
  ∀ t r, w.ofTag? t = some r → ∃ r', w'.ofTag? t = some r' ∧ r.Keeps r'

namespace World.KeepsKinds

variable {w w' w'' : World κ}

theorem refl (w : World κ) : w.KeepsKinds w := fun _ r hr => ⟨r, hr, rfl, id⟩

theorem trans (h : w.KeepsKinds w') (h' : w'.KeepsKinds w'') : w.KeepsKinds w'' := by
  intro t r hr
  obtain ⟨r', hr', hk⟩ := h t r hr
  obtain ⟨r'', hr'', hk'⟩ := h' t r' hr'
  exact ⟨r'', hr'', hk'.kind_eq.trans hk.kind_eq, fun hs => hk'.synced (hk.synced hs)⟩

theorem of_map {f : Registration κ → Registration κ}
    (hf : ∀ t, w'.ofTag? t = (w.ofTag? t).map f) (hk : ∀ r : Registration κ, r.Keeps (f r)) :
    w.KeepsKinds w' := by
  intro t r hr
  exact ⟨f r, by rw [hf, hr]; rfl, hk r⟩

theorem isSome_synced? (h : w.KeepsKinds w') {t : TypeTag} (hs : (w.synced? t).isSome) :
    (w'.synced? t).isSome := by
  rw [synced?_eq] at hs ⊢
  cases hr : w.ofTag? t with
  | none =>
    rw [hr] at hs
    cases hs
  | some r =>
    obtain ⟨r', hr', hk⟩ := h t r hr
    rw [hr] at hs
    rw [hr']
    exact hk.synced hs

end World.KeepsKinds

/-- No change takes a kind or a codec away. -/
theorem Change.keepsKinds [DecidableEq κ] {op : Operation κ} {w w' : World κ}
    (h : Change op w w') : w.KeepsKinds w' := by
  have hrework : ∀ (w : World κ) k (f : Column (Value k) → Column (Value k)),
      w.KeepsKinds (w.rework k f) := fun w k f =>
    .of_map (fun _ => World.ofTag?_rework) fun r =>
      ⟨Registration.kind_modifyColumn, fun hs => by rwa [Registration.synced?_modifyColumn]⟩
  cases h with
  | leave => exact .of_map (fun t => World.ofTag?_leave _ _) fun r => ⟨rfl, id⟩
  | write => exact hrework _ _ _
  | discard => exact hrework _ _ _
  | edit => exact hrework _ _ _
  | editAt => exact hrework _ _ _
  | editAll => exact hrework _ _ _
  | enroll codec => exact fun t r hr => ⟨r, World.ofTag?_enroll_of_some codec hr, rfl, id⟩
  | offer codec =>
    refine .of_map (fun _ => World.ofTag?_offer _) fun r => ⟨Registration.kind_offerCodec, ?_⟩
    intro hs
    rwa [Registration.offerCodec_of_isSome hs]
  | _ => exact .refl _

end EntityWorld
