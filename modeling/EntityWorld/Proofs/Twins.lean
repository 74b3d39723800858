/-
# Twins

Two worlds may know the same entities by different handles. Which handle of the
one and which of the other are for the same entity is told by a relation that
pairs no handle with two others (`Relator.BiUnique`). Tables agree along it if
each tells of a handle what the other tells of its twin (`Twinned`). A handle of
which nothing is told needs no twin, so the relation may grow and the tables
that agreed still do.

Twinned tables are changed alike by a change at twins, and have the same number
of entries. So journals and labels stay alike when alike things happen to twins
(`Journal.Alike`, `Labels.Alike`).

Key definitions: `Twinned`, `Journal.Alike`, `Labels.Alike`, `Agree`.
Key theorems: `Twinned.update`, `Twinned.size_eq`, `Journal.Alike.recordUpdate`
and its like for the other records, `Labels.Alike.bind`.
-/
import EntityWorld.Proofs.Stamps
import Mathlib.Combinatorics.Enumerative.DoubleCounting
import Mathlib.Tactic

namespace EntityWorld

open Relator

/-! ### Tables -/

section Tables

variable {α β γ : Type} {ρ σ : α → β → Prop} {d c : γ} {f f' : α → γ} {g g' : β → γ} {a : α} {b : β}

/-- What one table tells of anybody, other than `d`, another tells of the twin. -/
def Echoes (ρ : α → β → Prop) (d : γ) (f : α → γ) (g : β → γ) : Prop :=
  ∀ a, f a ≠ d → ∃ b, ρ a b ∧ g b = f a

/-- The tables tell of twins the same. -/
structure Twinned (ρ : α → β → Prop) (d : γ) (f : α → γ) (g : β → γ) : Prop where
  forth : Echoes ρ d f g
  back : Echoes (flip ρ) d g f

theorem leftUnique_flip (h : RightUnique ρ) : LeftUnique (flip ρ) := fun _ _ _ hx hy => h hx hy

theorem Echoes.mono (h : Echoes ρ d f g) (hle : ∀ a b, ρ a b → σ a b) : Echoes σ d f g := by
  intro a ha
  obtain ⟨b, hab, hb⟩ := h a ha
  exact ⟨b, hle a b hab, hb⟩

theorem Echoes.update [DecidableEq α] [DecidableEq β] (h : Echoes ρ d f g) (hρ : LeftUnique ρ)
    (hab : ρ a b) (hf : ∀ x, f' x = if x = a then c else f x)
    (hg : ∀ y, g' y = if y = b then c else g y) : Echoes ρ d f' g' := by
  intro x hx
  rw [hf] at hx
  by_cases hxa : x = a
  · refine ⟨b, hxa ▸ hab, ?_⟩
    rw [hf, hg, if_pos hxa, if_pos rfl]
  · rw [if_neg hxa] at hx
    obtain ⟨y, hxy, hy⟩ := h x hx
    have hyb : y ≠ b := fun hyb => hxa (hρ (hyb ▸ hxy) hab)
    refine ⟨y, hxy, ?_⟩
    rw [hf, hg, if_neg hxa, if_neg hyb, hy]

namespace Twinned

theorem mono (h : Twinned ρ d f g) (hle : ∀ a b, ρ a b → σ a b) : Twinned σ d f g :=
  ⟨h.forth.mono hle, h.back.mono fun b a => hle a b⟩

theorem refl {ρ : α → α → Prop} {f : α → γ} (h : ∀ a, f a ≠ d → ρ a a) : Twinned ρ d f f :=
  ⟨fun a ha => ⟨a, h a ha, rfl⟩, fun a ha => ⟨a, h a ha, rfl⟩⟩

theorem eq (h : Twinned ρ d f g) (hρ : BiUnique ρ) (hab : ρ a b) : f a = g b := by
  by_cases ha : f a = d
  · by_contra hne
    obtain ⟨a', hab', ha'⟩ := h.back b fun hb => hne (ha.trans hb.symm)
    exact hne (hρ.1 hab hab' ▸ ha')
  · obtain ⟨b', hab', hb'⟩ := h.forth a ha
    exact hρ.2 hab hab' ▸ hb'.symm

/-- The same is now told of twins. -/
theorem update [DecidableEq α] [DecidableEq β] (h : Twinned ρ d f g) (hρ : BiUnique ρ)
    (hab : ρ a b) (c : γ) (hf : ∀ x, f' x = if x = a then c else f x)
    (hg : ∀ y, g' y = if y = b then c else g y) : Twinned ρ d f' g' :=
  ⟨h.forth.update hρ.1 hab hf hg, h.back.update (leftUnique_flip hρ.2) hab hg hf⟩

/-- The same is now told of twins, if `p` is so. -/
theorem updateIf [DecidableEq α] [DecidableEq β] (h : Twinned ρ d f g) (hρ : BiUnique ρ)
    (hab : ρ a b) (c : γ) (p : Prop) [Decidable p]
    (hf : ∀ x, f' x = if x = a ∧ p then c else f x)
    (hg : ∀ y, g' y = if y = b ∧ p then c else g y) : Twinned ρ d f' g' := by
  by_cases hp : p
  · exact h.update hρ hab c (fun x => by simp [hf, hp]) fun y => by simp [hg, hp]
  · have hf' : f' = f := funext fun x => by simp [hf, hp]
    have hg' : g' = g := funext fun y => by simp [hg, hp]
    rwa [hf', hg']

end Twinned

section Stamps

variable [Ord α] [Std.TransOrd α] [Std.LawfulEqOrd α] [Ord β] [Std.TransOrd β] [Std.LawfulEqOrd β]
  {m : Stamps α} {n : Stamps β}

theorem mem_keys_iff {x : α} : x ∈ m.keys ↔ m[x]? ≠ none := by
  rw [Std.ExtTreeMap.mem_keys, Std.ExtTreeMap.mem_iff_isSome_getElem?, Option.isSome_iff_ne_none]

/-- No two entries have one twin. -/
theorem Echoes.size_le (h : Echoes ρ none (m[·]?) (n[·]?)) (hρ : LeftUnique ρ) :
    m.size ≤ n.size := by
  classical
  rw [← Std.ExtTreeMap.length_keys, ← Std.ExtTreeMap.length_keys,
    ← List.toFinset_card_of_nodup m.nodup_keys, ← List.toFinset_card_of_nodup n.nodup_keys]
  refine Finset.card_le_card_of_forall_subsingleton ρ (fun a ha => ?_) fun b _ => ?_
  · have ha := mem_keys_iff.mp (List.mem_toFinset.mp ha)
    obtain ⟨b, hab, hb⟩ := h a ha
    exact ⟨b, List.mem_toFinset.mpr (mem_keys_iff.mpr (ne_of_eq_of_ne hb ha)), hab⟩
  · exact fun x hx y hy => hρ hx.2 hy.2

theorem Twinned.size_eq (h : Twinned ρ none (m[·]?) (n[·]?)) (hρ : BiUnique ρ) : m.size = n.size :=
  le_antisymm (h.forth.size_le hρ.1) (h.back.size_le (leftUnique_flip hρ.2))

end Stamps
end Tables

variable {ρ σ : Handle → Handle → Prop} {e e' : Handle}

/-! ### Journals -/

namespace Journal

/-- The stamps of twins are the same, and there are no others. -/
structure Alike (ρ : Handle → Handle → Prop) (j j' : Journal) : Prop where
  now_eq : j.now = j'.now
  created : Twinned ρ none j.createdAt? j'.createdAt?
  destroyed : Twinned ρ none j.destroyedAt? j'.destroyedAt?
  updated : ∀ t, Twinned ρ none (j.updatedAt? · t) (j'.updatedAt? · t)
  removed : ∀ t, Twinned ρ none (j.removedAt? · t) (j'.removedAt? · t)

namespace Alike

variable {j j' : Journal}

theorem mono (h : Alike ρ j j') (hle : ∀ a b, ρ a b → σ a b) : Alike σ j j' :=
  ⟨h.now_eq, h.created.mono hle, h.destroyed.mono hle, fun t => (h.updated t).mono hle,
    fun t => (h.removed t).mono hle⟩

section Records

variable (h : Alike ρ j j') (hρ : BiUnique ρ) (he : ρ e e')
include h hρ he

theorem recordCreation : Alike ρ (j.recordCreation e) (j'.recordCreation e') where
  now_eq := h.now_eq
  created := h.created.update hρ he (some j.now) (fun _ => createdAt?_recordCreation)
    fun _ => h.now_eq ▸ createdAt?_recordCreation
  destroyed := h.destroyed
  updated := h.updated
  removed := h.removed

theorem recordDestruction : Alike ρ (j.recordDestruction e) (j'.recordDestruction e') where
  now_eq := h.now_eq
  created := h.created
  destroyed := h.destroyed.update hρ he (some j.now) (fun _ => destroyedAt?_recordDestruction)
    fun _ => h.now_eq ▸ destroyedAt?_recordDestruction
  updated t := (h.updated t).update hρ he none (fun _ => updatedAt?_recordDestruction j e _ t)
    fun _ => updatedAt?_recordDestruction j' e' _ t
  removed t := (h.removed t).update hρ he none (fun _ => removedAt?_recordDestruction j e _ t)
    fun _ => removedAt?_recordDestruction j' e' _ t

theorem recordUpdate (t : TypeTag) : Alike ρ (j.recordUpdate e t) (j'.recordUpdate e' t) where
  now_eq := h.now_eq
  created := h.created
  destroyed := h.destroyed
  updated u := (h.updated u).updateIf hρ he (some j.now) (u = t)
    (fun _ => updatedAt?_recordUpdate j e _ t u)
    fun _ => h.now_eq ▸ updatedAt?_recordUpdate j' e' _ t u
  removed u := (h.removed u).updateIf hρ he none (u = t)
    (fun _ => removedAt?_recordUpdate j e _ t u) fun _ => removedAt?_recordUpdate j' e' _ t u

theorem recordRemoval (t : TypeTag) : Alike ρ (j.recordRemoval e t) (j'.recordRemoval e' t) where
  now_eq := h.now_eq
  created := h.created
  destroyed := h.destroyed
  updated u := (h.updated u).updateIf hρ he none (u = t)
    (fun _ => updatedAt?_recordRemoval j e _ t u) fun _ => updatedAt?_recordRemoval j' e' _ t u
  removed u := (h.removed u).updateIf hρ he (some j.now) (u = t)
    (fun _ => removedAt?_recordRemoval j e _ t u)
    fun _ => h.now_eq ▸ removedAt?_recordRemoval j' e' _ t u

end Records

/-- A table of components is as large as that of their twins. -/
theorem size_eq_of_tags (hρ : BiUnique ρ) {m n : Stamps ComponentKey}
    (h : ∀ t, Twinned ρ none (fun e => m[ComponentKey.mk e t]?) fun e => n[ComponentKey.mk e t]?) :
    m.size = n.size := by
  have hkeys : BiUnique fun x y : ComponentKey => ρ x.entity y.entity ∧ x.tag = y.tag := by
    constructor
    · rintro ⟨a, t⟩ ⟨b, u⟩ ⟨c, v⟩ ⟨hac, htv⟩ ⟨hbc, huv⟩
      exact congrArg₂ ComponentKey.mk (hρ.1 hac hbc) (htv.trans huv.symm)
    · rintro ⟨a, t⟩ ⟨b, u⟩ ⟨c, v⟩ ⟨hab, htu⟩ ⟨hac, htv⟩
      exact congrArg₂ ComponentKey.mk (hρ.2 hab hac) (htu.symm.trans htv)
  refine Twinned.size_eq (ρ := fun x y => ρ x.entity y.entity ∧ x.tag = y.tag) ⟨?_, ?_⟩ hkeys
  · rintro ⟨a, t⟩ ha
    obtain ⟨b, hab, hb⟩ := (h t).forth a ha
    exact ⟨⟨b, t⟩, ⟨hab, rfl⟩, hb⟩
  · rintro ⟨b, t⟩ hb
    obtain ⟨a, hab, ha⟩ := (h t).back b hb
    exact ⟨⟨a, t⟩, ⟨hab, rfl⟩, ha⟩

end Alike
end Journal

/-! ### Results -/

section Results

variable {ε σ α β : Type} {R : σ → σ → Prop} {C : ε → ε → Prop}

/-- Two results are the same, but for the states that they leave and the causes of a
failure. -/
inductive Agree (R : σ → σ → Prop) (C : ε → ε → Prop) :
    EStateM.Result ε σ α → EStateM.Result ε σ α → Prop where
  | ok (a : α) {s t : σ} : R s t → Agree R C (.ok a s) (.ok a t)
  | error {c d : ε} {s t : σ} : C c d → R s t → Agree R C (.error c s) (.error d t)

namespace Agree

theorem map {x y : EStateM ε σ α} {s t : σ} (h : Agree R C (x s) (y t)) (f : α → β) :
    Agree R C ((f <$> x) s) ((f <$> y) t) := by
  simp only [Functor.map, EStateM.map]
  generalize x s = r, y t = r' at h ⊢
  cases h with
  | ok a hst => exact .ok (f a) hst
  | error hc hst => exact .error hc hst

theorem bind {x y : EStateM ε σ α} {f g : α → EStateM ε σ β} {s t : σ} (h : Agree R C (x s) (y t))
    (hfg : ∀ a {s t}, R s t → Agree R C (f a s) (g a t)) : Agree R C ((x >>= f) s) ((y >>= g) t) := by
  simp only [Bind.bind, EStateM.bind]
  generalize x s = r, y t = r' at h ⊢
  cases h with
  | ok a hst => exact hfg a hst
  | error hc hst => exact .error hc hst

theorem forM {f g : α → EStateM ε σ PUnit} (hfg : ∀ x {s t}, R s t → Agree R C (f x s) (g x t))
    (xs : List α) {s t : σ} (h : R s t) : Agree R C (xs.forM f s) (xs.forM g t) := by
  induction xs generalizing s t with
  | nil => exact .ok _ h
  | cons x xs ih => exact (hfg x h).bind fun _ {s t} hst => ih hst

theorem adaptExcept {ε' : Type} {x y : EStateM ε σ α} {s t : σ} (h : Agree R Eq (x s) (y t))
    (f : ε → ε') : Agree R Eq (EStateM.adaptExcept f x s) (EStateM.adaptExcept f y t) := by
  unfold EStateM.adaptExcept
  generalize x s = r, y t = r' at h ⊢
  cases h with
  | ok a hst => exact .ok a hst
  | error hc hst => exact .error (congrArg f hc) hst

theorem after {x y : EStateM ε σ α} {s t : σ} (h : Agree R C (x s) (y t)) :
    R (after x s) (after y t) := by
  unfold EntityWorld.after
  generalize x s = r, y t = r' at h ⊢
  cases h with
  | ok _ hst => exact hst
  | error _ hst => exact hst

end Agree
end Results

/-! ### Labels -/

section Lists

variable {α β : Type} {R : α → β → Prop} {xs : List α} {ys : List β}

theorem findIdx?_eq_of_forall₂ (h : List.Forall₂ R xs ys) {p : α → Bool} {q : β → Bool}
    (hpq : ∀ x y, R x y → p x = q y) : xs.findIdx? p = ys.findIdx? q := by
  induction h with
  | nil => rfl
  | cons hxy _ ih => rw [List.findIdx?_cons, List.findIdx?_cons, hpq _ _ hxy, ih]

theorem rel_getElem? (h : List.Forall₂ R xs ys) (i : Nat) : Option.Rel R xs[i]? ys[i]? := by
  induction h generalizing i with
  | nil => exact .none
  | cons hxy _ ih =>
    cases i with
    | zero => exact .some hxy
    | succ i => exact ih i

theorem forall₂_modify (h : List.Forall₂ R xs ys) {f : α → α} {g : β → β}
    (hfg : ∀ x y, R x y → R (f x) (g y)) (i : Nat) :
    List.Forall₂ R (xs.modify i f) (ys.modify i g) := by
  induction h generalizing i with
  | nil => simp
  | cons hxy hrest ih =>
    cases i with
    | zero => exact .cons (hfg _ _ hxy) hrest
    | succ i => exact .cons hxy (ih i)

end Lists

/-- The labels have one name and are bound to twins, or both to nobody. -/
def Label.Alike (ρ : Handle → Handle → Prop) (x y : Label) : Prop :=
  x.name = y.name ∧ Option.Rel ρ x.target y.target

/-- Labels bound to twins are bound to `e` and to its twin at once. -/
theorem Label.Alike.target_eq_iff {x y : Label} (h : x.Alike ρ y) (hρ : BiUnique ρ)
    (he : ρ e e') : x.target = some e ↔ y.target = some e' := by
  obtain ⟨name, a⟩ := x
  obtain ⟨name', b⟩ := y
  cases h.2 with
  | none => exact iff_of_false nofun nofun
  | some hab =>
    rw [Option.some_inj, Option.some_inj]
    exact rel_eq hρ hab he

namespace Labels

/-- Number by number, the labels are alike. -/
def Alike (ρ : Handle → Handle → Prop) (l l' : Labels) : Prop :=
  List.Forall₂ (Label.Alike ρ) l.entries.toList l'.entries.toList

namespace Alike

variable {l l' : Labels}

theorem refl (h : ∀ e, l.Binds e → ρ e e) : Alike ρ l l := by
  refine List.forall₂_same.mpr fun x hx => ⟨rfl, ?_⟩
  have hx := Array.mem_toList_iff.mp hx
  cases ht : x.target with
  | none => exact .none
  | some e => exact .some (h e ⟨x, hx, ht⟩)

theorem mono (h : Alike ρ l l') (hle : ∀ a b, ρ a b → σ a b) : Alike σ l l' := by
  refine List.Forall₂.imp (fun x y hxy => ⟨hxy.1, ?_⟩) h
  obtain ⟨name, a⟩ := x
  obtain ⟨name', b⟩ := y
  cases hxy.2 with
  | none => exact .none
  | some hab => exact .some (hle _ _ hab)

theorem size_eq (h : Alike ρ l l') : l.size = l'.size := h.length_eq

theorem id?_eq (h : Alike ρ l l') (name : String) : l.id? name = l'.id? name := by
  have hfind := findIdx?_eq_of_forall₂ h (p := (·.name == name)) (q := (·.name == name))
    fun x y hxy => by rw [hxy.1]
  rw [← List.findIdx?_toArray, ← List.findIdx?_toArray] at hfind
  exact congrArg _ hfind

theorem labelOf?_eq (h : Alike ρ l l') (hρ : BiUnique ρ) (he : ρ e e') :
    l.labelOf? e = l'.labelOf? e' := by
  have hfind := findIdx?_eq_of_forall₂ h (p := (·.target == some e)) (q := (·.target == some e'))
    fun x y hxy => Bool.eq_iff_iff.mpr (by simpa using hxy.target_eq_iff hρ he)
  rw [← List.findIdx?_toArray, ← List.findIdx?_toArray] at hfind
  exact congrArg _ hfind

theorem target? (h : Alike ρ l l') (id : UInt32) : Option.Rel ρ (l.target? id) (l'.target? id) := by
  have hrel := rel_getElem? h id.toNat
  rw [Array.getElem?_toList, Array.getElem?_toList] at hrel
  unfold Labels.target?
  generalize l.entries[id.toNat]? = o, l'.entries[id.toNat]? = o' at hrel ⊢
  cases hrel with
  | none => exact .none
  | some hxy => exact hxy.2

theorem unbind (h : Alike ρ l l') (hρ : BiUnique ρ) (he : ρ e e') :
    Alike ρ (l.unbind e) (l'.unbind e') := by
  unfold Alike Labels.unbind
  rw [Array.toList_map, Array.toList_map, List.forall₂_map_left_iff, List.forall₂_map_right_iff]
  refine List.Forall₂.imp (fun x y hxy => ?_) h
  have htarget := hxy.target_eq_iff hρ he
  by_cases hx : x.target = some e
  · rw [if_pos hx, if_pos (htarget.mp hx)]
    exact ⟨hxy.1, .none⟩
  · rw [if_neg hx, if_neg (mt htarget.mpr hx)]
    exact hxy

theorem create (h : Alike ρ l l') (name : String) :
    Agree (Alike ρ) Eq (Labels.create name l) (Labels.create name l') := by
  unfold Labels.create
  rw [← h.id?_eq, ← h.size_eq]
  split
  · exact .error rfl h
  · refine .ok _ ?_
    unfold Alike
    rw [Array.toList_push, Array.toList_push]
    exact List.rel_append h (.cons ⟨rfl, .none⟩ .nil)

theorem bind (h : Alike ρ l l') (he : ρ e e') (id : UInt32) :
    Agree (Alike ρ) Eq (Labels.bind id e l) (Labels.bind id e' l') := by
  unfold Labels.bind
  rw [← h.size_eq]
  split
  · refine .ok _ ?_
    unfold Alike
    rw [Array.toList_modify, Array.toList_modify]
    refine forall₂_modify h ?_ id.toNat
    exact fun x y hxy => ⟨hxy.1, .some he⟩
  · exact .error rfl h

theorem createAndBind (h : Alike ρ l l') (he : ρ e e') (name : String) :
    Agree (Alike ρ) Eq (Labels.createAndBind name e l) (Labels.createAndBind name e' l') :=
  (h.create name).bind fun id _ _ hl => (hl.bind he id).map fun _ => id

end Alike
end Labels
end EntityWorld
