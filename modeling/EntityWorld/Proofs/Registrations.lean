/-
# Registered kinds, seen by tag

Each change of a world's columns goes through its registrations one by one and
keeps what kind each is of. So looking a tag up after such a change finds the
registration found before, changed (`find?_tag_map`), and two questions about
it are answered column by column: whether a slot has a component
(`Registration.column.contains`) and what its bytes are (`Registration.encode?`).

At the level of worlds, `holds` and `bytes?` ask this of the registration that
a tag stands for. Where no two registrations share a tag (`TagsDistinct`), the
tag of a registered kind stands for that kind, and `get?` agrees with `holds`.

Key definitions: `World.holds`, `World.bytes?`, `World.payload?`,
`World.TagsDistinct`.
Key theorems: `Registration.encode?_modifyColumn`, `World.ofTag?_eq_some_iff`,
`World.holds_tagOf`.
-/
import EntityWorld.World.Replication
import Mathlib.Tactic

namespace EntityWorld

variable {κ : Type} [Family κ]

namespace Registration

/-- The kind and its codec, if it takes part in snapshots. -/
def synced? (r : Registration κ) : Option ((k : κ) × Codec (Value k)) :=
  r.codec.map fun codec => ⟨r.kind, codec⟩

theorem encode?_eq (r : Registration κ) (i : Nat) :
    r.encode? i = r.codec.bind fun codec => (r.column.get? i).map codec.encode := by
  unfold encode?
  cases r.codec <;> cases r.column.get? i <;> rfl

theorem encode?_eq_none {r : Registration κ} (h : r.column.contains i = false) :
    r.encode? i = none := by
  have hg : r.column.get? i = none := by simpa [Column.contains] using h
  rw [encode?_eq, hg]
  cases r.codec <;> rfl

/-! ### Emptying a slot -/

section Erase

variable (r : Registration κ) (i : Nat)

@[simp] theorem tag_erase : (r.erase i).tag = r.tag := rfl

@[simp] theorem size_erase : (r.erase i).column.size = r.column.size := Column.size_erase _ _

end Erase

variable [DecidableEq κ] {k : κ} {i : Nat}

/-! ### Changing one column -/

section ModifyColumn

variable {f : Column (Value k) → Column (Value k)} {r : Registration κ}

theorem modifyColumn_of_ne (h : r.kind ≠ k) : r.modifyColumn k f = r := dif_neg h

/-- The column changes if the registration is of the kind, and nothing else does. -/
theorem modifyColumn_cases (k : κ) (f : Column (Value k) → Column (Value k)) (r : Registration κ) :
    r.kind ≠ k ∧ r.modifyColumn k f = r ∨
      ∃ c codec, r = ⟨k, c, codec⟩ ∧ r.modifyColumn k f = ⟨k, f c, codec⟩ := by
  obtain ⟨k', c, codec⟩ := r
  by_cases hk : k' = k
  · subst hk
    exact Or.inr ⟨c, codec, rfl, by simp [modifyColumn]⟩
  · exact Or.inl ⟨hk, modifyColumn_of_ne hk⟩

@[simp] theorem kind_modifyColumn : (r.modifyColumn k f).kind = r.kind := by
  unfold modifyColumn
  split <;> rfl

@[simp] theorem tag_modifyColumn : (r.modifyColumn k f).tag = r.tag := by
  unfold tag
  rw [kind_modifyColumn]

@[simp] theorem synced?_modifyColumn : (r.modifyColumn k f).synced? = r.synced? := by
  rcases modifyColumn_cases k f r with ⟨-, h⟩ | ⟨c, codec, rfl, h⟩
  · rw [h]
  · rw [h]
    rfl

/-- What the change leaves alone in every column of the kind it leaves alone here. -/
theorem encode?_modifyColumn (hf : ∀ c, (f c).get? i = c.get? i) :
    (r.modifyColumn k f).encode? i = r.encode? i := by
  rcases modifyColumn_cases k f r with ⟨-, h⟩ | ⟨c, codec, rfl, h⟩
  · rw [h]
  · rw [h, encode?_eq, encode?_eq, hf]

theorem contains_modifyColumn (hf : ∀ c, (f c).contains i = c.contains i) :
    (r.modifyColumn k f).column.contains i = r.column.contains i := by
  rcases modifyColumn_cases k f r with ⟨-, h⟩ | ⟨c, codec, rfl, h⟩
  · rw [h]
  · rw [h]
    exact hf c

end ModifyColumn

/-! ### Codecs -/

section OfferCodec

variable {codec : Option (Codec (Value k))} {r : Registration κ}

theorem offerCodec_of_ne (h : r.kind ≠ k) : r.offerCodec k codec = r := dif_neg h

/-- At most the codec changes. -/
theorem exists_offerCodec_eq (r : Registration κ) (k : κ) (codec : Option (Codec (Value k))) :
    ∃ own, r.offerCodec k codec = { r with codec := own } := by
  unfold offerCodec
  split
  · exact ⟨_, rfl⟩
  · exact ⟨r.codec, rfl⟩

@[simp] theorem kind_offerCodec : (r.offerCodec k codec).kind = r.kind := by
  obtain ⟨own, h⟩ := exists_offerCodec_eq r k codec
  rw [h]

@[simp] theorem tag_offerCodec : (r.offerCodec k codec).tag = r.tag := by
  unfold tag
  rw [kind_offerCodec]

@[simp] theorem contains_offerCodec :
    (r.offerCodec k codec).column.contains i = r.column.contains i := by
  obtain ⟨own, h⟩ := exists_offerCodec_eq r k codec
  rw [h]

@[simp] theorem size_offerCodec : (r.offerCodec k codec).column.size = r.column.size := by
  obtain ⟨own, h⟩ := exists_offerCodec_eq r k codec
  rw [h]

/-- A codec once there stays. -/
theorem offerCodec_of_isSome (h : r.synced?.isSome) : r.offerCodec k codec = r := by
  obtain ⟨k', c, own⟩ := r
  cases own with
  | none => simp [synced?] at h
  | some own =>
    unfold offerCodec
    split <;> simp

end OfferCodec

end Registration

namespace World

/-! ### Looking a tag up -/

/-- A change that keeps the kinds finds under a tag what it made of the registration
found there before. -/
theorem find?_tag_map {f : Registration κ → Registration κ} (hf : ∀ r, (f r).tag = r.tag)
    (rs : List (Registration κ)) (t : TypeTag) :
    (rs.map f).find? (·.tag == t) = (rs.find? (·.tag == t)).map f := by
  rw [List.find?_map]
  congr 2
  funext r
  simp [hf]

/-- Whether the component of a tag is in a slot. -/
def holds (w : World κ) (i : Nat) (t : TypeTag) : Bool :=
  (w.ofTag? t).any (·.column.contains i)

/-- The bytes of the component of a tag in a slot, if the tag takes part in snapshots. -/
def bytes? (w : World κ) (i : Nat) (t : TypeTag) : Option (List UInt8) :=
  (w.ofTag? t).bind (·.encode? i)

/-- The bytes of a component of an entity. There are none of a dead entity. -/
def payload? (w : World κ) (e : Handle) (t : TypeTag) : Option (List UInt8) :=
  if w.isAlive e then w.bytes? e.slot t else none

theorem payload?_of_isAlive {w : World κ} {e : Handle} {t : TypeTag} (h : w.isAlive e) :
    w.payload? e t = w.bytes? e.slot t := if_pos h

theorem payload?_of_not_isAlive {w : World κ} {e : Handle} {t : TypeTag} (h : ¬ w.isAlive e) :
    w.payload? e t = none := if_neg h

theorem bytes?_eq_none {w : World κ} {i : Nat} {t : TypeTag} (h : w.holds i t = false) :
    w.bytes? i t = none := by
  unfold holds at h
  unfold bytes?
  cases hr : w.ofTag? t with
  | none => rfl
  | some r =>
    rw [hr] at h
    exact Registration.encode?_eq_none h

theorem mem_of_ofTag? {w : World κ} {t : TypeTag} {r : Registration κ} (h : w.ofTag? t = some r) :
    r ∈ w.registrations := List.mem_of_find?_eq_some h

theorem tag_of_ofTag? {w : World κ} {t : TypeTag} {r : Registration κ} (h : w.ofTag? t = some r) :
    r.tag = t := by simpa using List.find?_some h

/-- No two registrations share a tag. -/
def TagsDistinct (w : World κ) : Prop := (w.registrations.map (·.tag)).Nodup

theorem ofTag?_eq_some_iff {w : World κ} (hw : w.TagsDistinct) {t : TypeTag} {r : Registration κ} :
    w.ofTag? t = some r ↔ r ∈ w.registrations ∧ r.tag = t := by
  refine ⟨fun h => ⟨mem_of_ofTag? h, tag_of_ofTag? h⟩, fun ⟨hr, ht⟩ => ?_⟩
  cases hf : w.ofTag? t with
  | none => exact absurd (List.find?_eq_none.mp hf r hr) (by simp [ht])
  | some r' =>
    have he := List.inj_on_of_nodup_map hw (mem_of_ofTag? hf) hr ((tag_of_ofTag? hf).trans ht.symm)
    rw [he]

variable [DecidableEq κ] {w : World κ} {k : κ}

theorem isRegistered_iff : w.isRegistered k ↔ ∃ r ∈ w.registrations, r.kind = k := by
  simp [isRegistered]

theorem column?_of_mem {r : Registration κ} (hw : w.TagsDistinct) (hr : r ∈ w.registrations) :
    w.column? r.kind = some r.column := by
  obtain ⟨before, after, hl⟩ := List.append_of_mem hr
  have hother : ∀ x ∈ before, x.column? r.kind = none := by
    intro x hx
    refine dif_neg fun hk => ?_
    have hnd := hw
    rw [TagsDistinct, hl, List.map_append, List.map_cons, List.nodup_append] at hnd
    exact hnd.2.2 x.tag (List.mem_map_of_mem hx) r.tag List.mem_cons_self (congrArg tagOf hk)
  have hown : r.column? r.kind = some r.column := by simp [Registration.column?]
  exact List.findSome?_eq_some_iff.mpr ⟨before, r, after, hl, hown, hother⟩

/-- The tag of a registered kind stands for its column. -/
theorem holds_tagOf (hw : w.TagsDistinct) (hk : w.isRegistered k) (i : Nat) :
    w.holds i (tagOf k) = ((w.column? k).bind (·.get? i)).isSome := by
  obtain ⟨r, hr, rfl⟩ := isRegistered_iff.mp hk
  have ht : w.ofTag? (tagOf r.kind) = some r := (ofTag?_eq_some_iff hw).mpr ⟨hr, rfl⟩
  rw [holds, ht, column?_of_mem hw hr]
  rfl

end World
end EntityWorld
