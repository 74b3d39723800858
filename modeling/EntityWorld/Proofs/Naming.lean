/-
# Names, numbers and bindings

Whatever is asked of labels, in whatever order, names and numbers belong to each other
one to one, the numbers are those from zero on in the order in which the labels were
made, and no label is lost or gets another name. To whom a label is bound is told by
what was asked last: it is the entity of the last request that bound the label, unless
the bindings to this entity were undone since (`Labels.Undisturbed`).

Labels are stored in the order of their numbers, so that a name is found by going
through all of them. That the first label found is the only one rests on the names
being distinct, which is what a refused name is for.

Numbers are words: after 2^32 labels they start over. All that is said of one request
holds of any number of labels (`Labels.numbered_apply`, `Labels.target?_apply_iff`), and
only the look-ups need that the numbers have not started over.

Key definitions: `Labels.Request`, `Labels.serve`, `Labels.issued`,
`Labels.Undisturbed`, `Labels.Recounts`.
Key theorems: `Labels.numbered_apply`, `Labels.target?_apply_iff`,
`Labels.recounts_serve`.
-/
import EntityWorld.Proofs.Bindings
import EntityWorld.Proofs.Refusals
import Mathlib.Tactic

namespace EntityWorld.Labels

variable {l l' : Labels} {name : String} {id : UInt32} {e : Handle}

/-! ### Requests -/

/-- What can be asked of labels. -/
inductive Request where
  | create (name : String)
  | bind (id : UInt32) (e : Handle)
  | createAndBind (name : String) (e : Handle)
  | unbind (e : Handle)
deriving DecidableEq

/-- The label that a request has made, by number and name. -/
def made (name : String) : EStateM.Result LabelError Labels UInt32 → List (UInt32 × String)
  | .ok id _ => [(id, name)]
  | .error _ _ => []

namespace Request

/-- The labels after a request, granted or not. -/
def apply : Request → Labels → Labels
  | create name, l => after (Labels.create name) l
  | bind id e, l => after (Labels.bind id e) l
  | createAndBind name e, l => after (Labels.createAndBind name e) l
  | unbind e, l => l.unbind e

/-- The labels that a request makes. -/
def makes : Request → Labels → List (UInt32 × String)
  | create name, l => made name (Labels.create name l)
  | createAndBind name e, l => made name (Labels.createAndBind name e l)
  | bind _ _, _ | unbind _, _ => []

/-- A request binds a label to an entity, and is granted. -/
def Binds : Request → Labels → UInt32 → Handle → Prop
  | bind id e, l, i, e' => (∃ l', Labels.bind id e l = .ok () l') ∧ i = id ∧ e' = e
  | createAndBind name e, l, i, e' => (∃ l', Labels.createAndBind name e l = .ok i l') ∧ e' = e
  | create _, _, _, _ | unbind _, _, _, _ => False

/-- The ground on which a request is to be refused: the name is there already, or the
number was not given out. -/
def ground? : Request → Labels → Option LabelError
  | create name, l | createAndBind name _, l =>
    if (l.id? name).isSome then some (.duplicateName name) else none
  | bind id _, l => if l.name? id = none then some (.unknown id) else none
  | unbind _, _ => none

/-- Why a request is refused, and what it leaves then. -/
def refused? : Request → Labels → Option (LabelError × Labels)
  | create name, l => failed? (Labels.create name) l
  | bind id e, l => failed? (Labels.bind id e) l
  | createAndBind name e, l => failed? (Labels.createAndBind name e) l
  | unbind _, _ => none

end Request

/-- The labels after some requests, one after another. -/
def serve (l : Labels) (rs : List Request) : Labels := rs.foldl (fun l r => r.apply l) l

/-- The labels that some requests make, in order. -/
def issued : Labels → List Request → List (UInt32 × String)
  | _, [] => []
  | l, r :: rs => r.makes l ++ issued (r.apply l) rs

/-- None of some requests binds the label anew, or undoes the bindings to the entity. -/
def Undisturbed (l : Labels) (rs : List Request) (id : UInt32) (e : Handle) : Prop :=
  Throughout Request.apply (fun r l => r ≠ .unbind e ∧ ∀ e', ¬ r.Binds l id e') l rs

/-! ### What the requests come to -/

theorem eq_of_bind_error {c : LabelError} (h : bind id e l = .error c l') : l' = l := by
  unfold bind at h
  split at h
  · cases h
  · cases h
    rfl

/-! ### Names and numbers -/

/-- The labels by number and name. -/
def numbered (l : Labels) : List (UInt32 × String) :=
  (l.entries.toList.map (·.name)).zipIdx.map fun x => (UInt32.ofNat x.2, x.1)

theorem map_snd_numbered : l.numbered.map (·.2) = l.entries.toList.map (·.name) := by
  unfold numbered
  rw [List.map_map]
  exact List.zipIdx_map_fst 0 _

theorem map_fst_numbered : l.numbered.map (·.1) = (List.range l.size).map UInt32.ofNat := by
  have hall : (l.entries.toList.map (·.name)).zipIdx.map Prod.snd = List.range l.size := by
    rw [List.zipIdx_map_snd, ← List.range_eq_range', List.length_map, Array.length_toList, size]
  rw [← hall, numbered, List.map_map, List.map_map]
  rfl

theorem numbered_push (x : Label) :
    numbered ⟨l.entries.push x⟩ = l.numbered ++ [(UInt32.ofNat l.size, x.name)] := by
  simp [numbered, size, List.zipIdx_append]

/-- Names are not touched by bindings. -/
theorem numbered_modify (i : Nat) (o : Option Handle) :
    numbered ⟨l.entries.modify i ({ · with target := o })⟩ = l.numbered := by
  have hnames : (l.entries.modify i ({ · with target := o })).toList.map (·.name) =
      l.entries.toList.map (·.name) := by
    refine List.ext_getElem? fun j => ?_
    rw [List.getElem?_map, List.getElem?_map, Array.getElem?_toList, Array.getElem?_toList,
      Array.getElem?_modify]
    split
    · rw [Option.map_map]
      rfl
    · rfl
  simp only [numbered, hnames]

theorem numbered_of_bind (h : bind id e l = .ok () l') : l'.numbered = l.numbered := by
  unfold bind at h
  split at h
  · cases h
    exact numbered_modify _ _
  · cases h

theorem numbered_unbind : (l.unbind e).numbered = l.numbered := by
  have hnames : (l.unbind e).entries.toList.map (·.name) = l.entries.toList.map (·.name) := by
    rw [unbind, Array.toList_map, List.map_map]
    refine List.map_congr_left fun x _ => ?_
    simp only [Function.comp_apply]
    split <;> rfl
  simp only [numbered, hnames]

/-- A request adds the labels that it makes, and leaves the others where they are. -/
theorem numbered_apply (r : Request) (l : Labels) :
    (r.apply l).numbered = l.numbered ++ r.makes l := by
  cases r with
  | create name =>
    by_cases h : (l.id? name).isSome
    · have hc := create_of_isSome h
      rw [Request.apply, Request.makes, after_of_error hc, hc, made, List.append_nil]
    · have hc := create_of_not_isSome h
      rw [Request.apply, Request.makes, after_of_ok hc, hc, numbered_push, made]
  | bind id e =>
    rw [Request.makes, List.append_nil, Request.apply]
    cases hb : bind id e l with
    | ok _ l' =>
      rw [after_of_ok hb]
      exact numbered_of_bind hb
    | error c l' => rw [after_of_error hb, eq_of_bind_error hb]
  | createAndBind name e =>
    by_cases h : (l.id? name).isSome
    · have hc := createAndBind_of_isSome (e := e) h
      rw [Request.apply, Request.makes, after_of_error hc, hc, made, List.append_nil]
    · obtain ⟨l', hb, hc⟩ := exists_createAndBind h e
      rw [Request.apply, Request.makes, after_of_ok hc, hc, numbered_of_bind hb, numbered_push, made]
  | unbind e =>
    rw [Request.makes, List.append_nil]
    exact numbered_unbind

theorem numbered_serve (rs : List Request) (l : Labels) :
    (l.serve rs).numbered = l.numbered ++ issued l rs := by
  induction rs generalizing l with
  | nil => exact (List.append_nil _).symm
  | cons r rs ih =>
    calc (l.serve (r :: rs)).numbered
        = (r.apply l).numbered ++ issued (r.apply l) rs := ih (r.apply l)
      _ = l.numbered ++ r.makes l ++ issued (r.apply l) rs := by rw [numbered_apply]
      _ = l.numbered ++ issued l (r :: rs) := List.append_assoc _ _ _

/-! ### Bindings -/

/-- A request that binds one label leaves that one bound to its entity, and the others
as they were. -/
theorem target?_iff_of_binds {r : Request} {i : UInt32} {e' : Handle}
    (hbinds : ∀ i e', r.Binds l i e' ↔ i = id ∧ e' = e)
    (htarget : ∀ i, l'.target? i = if i = id then some e else l.target? i)
    (hr : r ≠ .unbind e') :
    l'.target? i = some e' ↔
      r.Binds l i e' ∨ l.target? i = some e' ∧ r ≠ .unbind e' ∧ ∀ e'', ¬ r.Binds l i e'' := by
  simp only [hbinds, htarget]
  by_cases hi : i = id
  · rw [if_pos hi, Option.some_inj]
    constructor
    · exact fun he => Or.inl ⟨hi, he.symm⟩
    · rintro (⟨-, he⟩ | ⟨-, -, hnone⟩)
      · exact he.symm
      · exact (hnone e ⟨hi, rfl⟩).elim
  · rw [if_neg hi]
    constructor
    · exact fun ht => Or.inr ⟨ht, hr, fun _ h => hi h.1⟩
    · rintro (⟨h, -⟩ | ⟨ht, -, -⟩)
      · exact (hi h).elim
      · exact ht

/-- A request that binds nothing leaves every label bound as it was. -/
theorem target?_iff_of_not_binds {r : Request} {i : UInt32} {e' : Handle}
    (hbinds : ∀ i e', ¬ r.Binds l i e') (htarget : l'.target? i = l.target? i)
    (hr : r ≠ .unbind e') :
    l'.target? i = some e' ↔
      r.Binds l i e' ∨ l.target? i = some e' ∧ r ≠ .unbind e' ∧ ∀ e'', ¬ r.Binds l i e'' := by
  rw [htarget]
  constructor
  · exact fun ht => Or.inr ⟨ht, hr, hbinds i⟩
  · rintro (h | ⟨ht, -, -⟩)
    · exact (hbinds i e' h).elim
    · exact ht

/-- A label is bound to an entity by a request, or it was before and the request neither
binds the label nor undoes the bindings to the entity. -/
theorem target?_apply_iff (r : Request) (l : Labels) (i : UInt32) (e' : Handle) :
    (r.apply l).target? i = some e' ↔
      r.Binds l i e' ∨ l.target? i = some e' ∧ r ≠ .unbind e' ∧ ∀ e'', ¬ r.Binds l i e'' := by
  cases r with
  | create name =>
    exact target?_iff_of_not_binds (fun _ _ => id) (target?_create name l i) nofun
  | bind id e =>
    cases hb : bind id e l with
    | ok _ l' =>
      rw [Request.apply, after_of_ok hb]
      refine target?_iff_of_binds (fun i e' => ?_) (target?_of_bind hb) nofun
      exact and_iff_right ⟨l', hb⟩
    | error c l' =>
      rw [Request.apply, after_of_error hb]
      refine target?_iff_of_not_binds (fun i e' h => ?_) (by rw [eq_of_bind_error hb]) nofun
      obtain ⟨⟨l'', hok⟩, -⟩ := h
      rw [hb] at hok
      cases hok
  | createAndBind name e =>
    by_cases h : (l.id? name).isSome
    · have hc := createAndBind_of_isSome (e := e) h
      rw [Request.apply, after_of_error hc]
      refine target?_iff_of_not_binds (fun i e' h => ?_) rfl nofun
      obtain ⟨⟨l'', hok⟩, -⟩ := h
      rw [hc] at hok
      cases hok
    · obtain ⟨l', hb, hc⟩ := exists_createAndBind h e
      have hbinds : ∀ i e', (Request.createAndBind name e).Binds l i e' ↔
          i = UInt32.ofNat l.size ∧ e' = e := by
        refine fun i e' => and_congr_left fun _ => ?_
        rw [hc]
        constructor
        · rintro ⟨l'', hok⟩
          cases hok
          rfl
        · rintro rfl
          exact ⟨l', rfl⟩
      have htarget : ∀ i, l'.target? i =
          if i = UInt32.ofNat l.size then some e else l.target? i := fun i => by
        rw [target?_of_bind hb, target?_push]
      rw [Request.apply, after_of_ok hc]
      exact target?_iff_of_binds hbinds htarget nofun
  | unbind e =>
    have hne : Request.unbind e ≠ .unbind e' ↔ e' ≠ e := by
      rw [ne_eq, Request.unbind.injEq, eq_comm]
    rw [hne]
    change (l.unbind e).target? i = some e' ↔
      False ∨ l.target? i = some e' ∧ e' ≠ e ∧ ∀ _, ¬ False
    rw [target?_unbind_eq_ite]
    split
    · next h =>
      rw [h]
      simp [eq_comm]
    · next h =>
      simp only [false_or, not_false_eq_true, implies_true, and_true, iff_self_and]
      rintro ht rfl
      exact h ht

/-! ### Look-ups -/

/-- A request makes no label, or the next one with a name that is not found. -/
theorem makes_cases (r : Request) (l : Labels) :
    r.makes l = [] ∨ ∃ name, ¬ (l.id? name).isSome ∧ r.makes l = [(UInt32.ofNat l.size, name)] := by
  cases r with
  | create name =>
    by_cases h : (l.id? name).isSome
    · exact Or.inl (congrArg (made name) (create_of_isSome h))
    · exact Or.inr ⟨name, h, congrArg (made name) (create_of_not_isSome h)⟩
  | createAndBind name e =>
    by_cases h : (l.id? name).isSome
    · exact Or.inl (congrArg (made name) (createAndBind_of_isSome h))
    · obtain ⟨l', -, hc⟩ := exists_createAndBind h e
      exact Or.inr ⟨name, h, congrArg (made name) hc⟩
  | bind | unbind => exact Or.inl rfl

theorem not_mem_names (h : ¬ (l.id? name).isSome) : name ∉ l.numbered.map (·.2) := by
  intro hm
  rw [map_snd_numbered, List.mem_map] at hm
  obtain ⟨x, hx, rfl⟩ := hm
  refine h ?_
  rw [id?, Option.isSome_map, Array.findIdx?_isSome]
  exact Array.any_eq_true'.mpr ⟨x, Array.mem_toList_iff.mp hx, beq_self_eq_true _⟩

/-- Names stay distinct. -/
theorem nodup_names_apply (r : Request) (h : (l.numbered.map (·.2)).Nodup) :
    ((r.apply l).numbered.map (·.2)).Nodup := by
  rw [numbered_apply, List.map_append]
  rcases makes_cases r l with hnone | ⟨name, hnew, hone⟩
  · rw [hnone, List.map_nil, List.append_nil]
    exact h
  · rw [hone, List.map_singleton, ← List.concat_eq_append, List.nodup_concat]
    exact ⟨not_mem_names hnew, h⟩

theorem nodup_names_serve (rs : List Request) (h : (l.numbered.map (·.2)).Nodup) :
    ((l.serve rs).numbered.map (·.2)).Nodup := by
  induction rs generalizing l with
  | nil => exact h
  | cons r rs ih => exact ih (nodup_names_apply r h)

section Few

variable (hl : l.size < UInt32.size)
include hl

theorem toNat_ofNat_of_lt {k : Nat} (hk : k < l.size) : (UInt32.ofNat k).toNat = k :=
  UInt32.toNat_ofNat_of_lt' (hk.trans hl)

theorem mem_numbered_iff : (id, name) ∈ l.numbered ↔ l.name? id = some name := by
  unfold numbered
  rw [List.mem_map]
  constructor
  · rintro ⟨⟨n, k⟩, hmem, heq⟩
    cases heq
    have hget := List.mk_mem_zipIdx_iff_getElem?.mp hmem
    rw [List.getElem?_map, Array.getElem?_toList] at hget
    obtain ⟨x, hx, rfl⟩ := Option.map_eq_some_iff.mp hget
    obtain ⟨hk, -⟩ := Array.getElem?_eq_some_iff.mp hx
    rw [name?, toNat_ofNat_of_lt hl hk, hx]
    rfl
  · intro h
    obtain ⟨x, hx, rfl⟩ := Option.map_eq_some_iff.mp h
    refine ⟨(x.name, id.toNat), List.mk_mem_zipIdx_iff_getElem?.mpr ?_, ?_⟩
    · rw [List.getElem?_map, Array.getElem?_toList, hx]
      rfl
    · rw [UInt32.ofNat_toNat]

/-- A name is found where it stands, if it stands nowhere else. -/
theorem id?_eq_some_iff (hnodup : (l.numbered.map (·.2)).Nodup) :
    l.id? name = some id ↔ l.name? id = some name := by
  unfold id? name?
  rw [Option.map_eq_some_iff, Option.map_eq_some_iff]
  constructor
  · rintro ⟨k, hk, rfl⟩
    obtain ⟨hlt, hname, -⟩ := Array.findIdx?_eq_some_iff_getElem.mp hk
    refine ⟨l.entries[k], ?_, beq_iff_eq.mp hname⟩
    rw [toNat_ofNat_of_lt hl hlt, Array.getElem?_eq_getElem hlt]
  · rintro ⟨x, hx, rfl⟩
    obtain ⟨hlt, rfl⟩ := Array.getElem?_eq_some_iff.mp hx
    refine ⟨id.toNat, Array.findIdx?_eq_some_iff_getElem.mpr ⟨hlt, beq_self_eq_true _, ?_⟩,
      UInt32.ofNat_toNat⟩
    intro j hj hname
    rw [map_snd_numbered] at hnodup
    have hlength : id.toNat < (l.entries.toList.map (·.name)).length := by
      rwa [List.length_map, Array.length_toList]
    refine List.nodup_iff_getElem?_ne_getElem?.mp hnodup j id.toNat hj hlength ?_
    rw [List.getElem?_map, List.getElem?_map, Array.getElem?_toList, Array.getElem?_toList,
      Array.getElem?_eq_getElem (hj.trans hlt), Array.getElem?_eq_getElem hlt]
    exact congrArg some (beq_iff_eq.mp hname)

/-- The label that is found of an entity is the first that is bound to it. -/
theorem labelOf?_eq_some_iff : l.labelOf? e = some id ↔
    l.target? id = some e ∧ ∀ j, l.target? j = some e → id ≤ j := by
  have htarget : ∀ j, l.target? j = some e ↔
      ∃ h : j.toNat < l.entries.size, (l.entries[j.toNat].target == some e) = true := by
    intro j
    rw [target?, Option.bind_eq_some_iff]
    constructor
    · rintro ⟨x, hx, ht⟩
      obtain ⟨hlt, rfl⟩ := Array.getElem?_eq_some_iff.mp hx
      exact ⟨hlt, beq_iff_eq.mpr ht⟩
    · rintro ⟨hlt, ht⟩
      exact ⟨_, Array.getElem?_eq_getElem hlt, beq_iff_eq.mp ht⟩
  unfold labelOf?
  rw [Option.map_eq_some_iff, htarget]
  constructor
  · rintro ⟨k, hk, rfl⟩
    obtain ⟨hlt, hhere, hbefore⟩ := Array.findIdx?_eq_some_iff_getElem.mp hk
    have hback : (UInt32.ofNat k).toNat = k := toNat_ofNat_of_lt hl hlt
    refine ⟨⟨hback.symm ▸ hlt, by simpa only [hback] using hhere⟩, fun j hj => ?_⟩
    obtain ⟨hlt', ht⟩ := (htarget j).mp hj
    rw [UInt32.le_iff_toNat_le, hback]
    by_contra hless
    exact hbefore j.toNat (Nat.lt_of_not_le hless) ht
  · rintro ⟨⟨hlt, ht⟩, hleast⟩
    refine ⟨id.toNat, Array.findIdx?_eq_some_iff_getElem.mpr ⟨hlt, ht, fun j hj hhere => ?_⟩,
      UInt32.ofNat_toNat⟩
    have hback : (UInt32.ofNat j).toNat = j := toNat_ofNat_of_lt hl (hj.trans hlt)
    have hle := hleast (UInt32.ofNat j) ((htarget _).mpr
      ⟨hback.symm ▸ hj.trans hlt, by simpa only [hback] using hhere⟩)
    rw [UInt32.le_iff_toNat_le, hback] at hle
    omega

theorem nodup_numbers : (l.numbered.map (·.1)).Nodup := by
  rw [map_fst_numbered]
  refine List.Nodup.map_on (fun a ha b hb hab => ?_) List.nodup_range
  have hnat := congrArg UInt32.toNat hab
  rwa [toNat_ofNat_of_lt hl (List.mem_range.mp ha),
    toNat_ofNat_of_lt hl (List.mem_range.mp hb)] at hnat

/-- The number of bindings to an entity, told by the numbers of the labels. -/
theorem bindingCount_eq (e : Handle) : l.bindingCount e =
    ((List.range l.size).map UInt32.ofNat).countP fun id => l.target? id == some e := by
  have hentries : l.entries.toList.map (·.target) =
      ((List.range l.size).map UInt32.ofNat).map l.target? := by
    refine List.ext_getElem (by simp [size]) fun k hk hk' => ?_
    have hlt : k < l.entries.size := by simpa using hk
    have hback : (UInt32.ofNat k).toNat = k := toNat_ofNat_of_lt hl hlt
    simp [target?, hback, hlt]
  calc l.bindingCount e
      = (l.entries.toList.map (·.target)).countP (· == some e) := by
        rw [bindingCount, ← Array.countP_toList, List.countP_map]
        rfl
    _ = (((List.range l.size).map UInt32.ofNat).map l.target?).countP (· == some e) := by
        rw [hentries]
    _ = _ := List.countP_map

end Few

/-- The numbers of the labels that are bound to somebody. -/
def bound (l : Labels) : List UInt32 :=
  ((List.range l.size).map UInt32.ofNat).filter fun id => (l.target? id).isSome

/-- Of the bindings, those to an entity go when they are undone, and the others stay. -/
theorem length_bound_unbind (hl : l.size < UInt32.size) (e : Handle) :
    (l.unbind e).bound.length + l.bindingCount e = l.bound.length := by
  have hsize : (l.unbind e).size = l.size := size_unbind l e
  rw [bound, bound, hsize, bindingCount_eq hl, ← List.countP_eq_length_filter,
    ← List.countP_eq_length_filter]
  induction (List.range l.size).map UInt32.ofNat with
  | nil => rfl
  | cons id ids ih =>
    simp only [List.countP_cons, target?_unbind_eq_ite]
    rw [← ih]
    simp only [target?_unbind_eq_ite]
    cases l.target? id with
    | none => simp
    | some e' =>
      by_cases he : e' = e
      · simp [he]
        omega
      · simp [he]
        omega

/-! ### All requests -/

/-- A request is refused on its ground and no other, and changes nothing then. -/
theorem refused?_eq (r : Request) (l : Labels) : r.refused? l = (r.ground? l).map (·, l) := by
  cases r with
  | create name =>
    rw [Request.refused?, Request.ground?]
    by_cases hn : (l.id? name).isSome
    · rw [if_pos hn, failed?_of_error (create_of_isSome hn)]
      rfl
    · rw [if_neg hn, failed?_of_ok (create_of_not_isSome hn)]
      rfl
  | bind id e =>
    rw [Request.refused?, Request.ground?, failed?_bind]
    split <;> rfl
  | createAndBind name e =>
    rw [Request.refused?, Request.ground?, failed?_createAndBind]
    split <;> rfl
  | unbind => rfl

/-- What labels tell of the requests that led to them. -/
structure Recounts (rs : List Request) (l : Labels) : Prop where
  /-- Numbers are given out from zero on, in order. -/
  numbers_eq : (issued {} rs).map (·.1) = (List.range l.size).map UInt32.ofNat
  /-- And none is given out twice. -/
  nodup_numbers : ((issued {} rs).map (·.1)).Nodup
  isSome_name?_iff : ∀ id, (l.name? id).isSome ↔ id.toNat < l.size
  /-- A label that was made is there, with the name it was made with. -/
  name?_eq_some_iff : ∀ id name, l.name? id = some name ↔ (id, name) ∈ issued {} rs
  id?_eq_some_iff : ∀ name id, l.id? name = some id ↔ l.name? id = some name
  /-- A label is bound to whom it was bound last, unless this was undone since. -/
  target?_eq_some_iff : ∀ id e, l.target? id = some e ↔
    ∃ rs₁ r rs₂, rs = rs₁ ++ r :: rs₂ ∧ r.Binds (serve {} rs₁) id e ∧
      Undisturbed (r.apply (serve {} rs₁)) rs₂ id e
  isSome_name?_of_target? : ∀ id e, l.target? id = some e → (l.name? id).isSome
  labelOf?_eq_some_iff : ∀ e id, l.labelOf? e = some id ↔
    l.target? id = some e ∧ ∀ j, l.target? j = some e → id ≤ j
  labelOf?_eq_none_iff : ∀ e, l.labelOf? e = none ↔ ∀ id, l.target? id ≠ some e
  target?_unbind : ∀ e id,
    (l.unbind e).target? id = if l.target? id = some e then none else l.target? id
  length_bound_unbind : ∀ e, (l.unbind e).bound.length + l.bindingCount e = l.bound.length
  /-- A further request is refused on its ground only, and leaves the labels as they are. -/
  refused?_eq : ∀ r : Request, r.refused? l = (r.ground? l).map (·, l)

/-- **Labels tell what was asked of them.** Whatever was asked, with any names, numbers and
entities: names and numbers belong to each other one to one, and a label is bound to
whom it was bound last. -/
theorem recounts_serve (rs : List Request) (hfew : (serve {} rs).size < 2 ^ 32) :
    Recounts rs (serve {} rs) := by
  have hnumbered : (serve {} rs).numbered = issued {} rs := numbered_serve rs {}
  have hnames : ((serve {} rs).numbered.map (·.2)).Nodup := nodup_names_serve rs List.nodup_nil
  have htarget : ∀ id e, (serve {} rs).target? id = some e ↔
      ∃ rs₁ r rs₂, rs = rs₁ ++ r :: rs₂ ∧ r.Binds (serve {} rs₁) id e ∧
        Undisturbed (r.apply (serve {} rs₁)) rs₂ id e := fun id e =>
    (holds_foldl_iff Request.apply (P := fun l => l.target? id = some e)
      (fun r _ l => target?_apply_iff r l id e) {}).trans (or_iff_left fun h => by cases h.1)
  have hisSome : ∀ id, ((serve {} rs).name? id).isSome ↔ id.toNat < (serve {} rs).size := by
    intro id
    rw [← Option.ne_none_iff_isSome, ne_eq, name?_eq_none_iff, Nat.not_le]
  have hsome : ∀ e id, (serve {} rs).labelOf? e = some id ↔ (serve {} rs).target? id = some e ∧
      ∀ j, (serve {} rs).target? j = some e → id ≤ j := fun e id => labelOf?_eq_some_iff hfew
  refine ⟨hnumbered ▸ map_fst_numbered, hnumbered ▸ Labels.nodup_numbers hfew, hisSome,
    fun id name => ?_, fun name id => Labels.id?_eq_some_iff hfew hnames, htarget,
    fun id e ht => ?_, hsome, fun e => ?_, Labels.target?_unbind_eq_ite _,
    Labels.length_bound_unbind hfew, fun r => Labels.refused?_eq r _⟩
  · rw [← hnumbered]
    exact (mem_numbered_iff hfew).symm
  · obtain ⟨x, hx, -⟩ := Option.bind_eq_some_iff.mp ht
    exact (hisSome id).mpr (Array.getElem?_eq_some_iff.mp hx).1
  · rw [labelOf?_eq_none_iff]
    refine ⟨fun hnone id ht => hnone (binds_of_target? ht), fun hnone hb => ?_⟩
    cases hl : (serve {} rs).labelOf? e with
    | none => exact labelOf?_eq_none_iff.mp hl hb
    | some id => exact hnone id ((hsome e id).mp hl).1

/-- Two entities share a label in turn; a name is asked for twice and a number too early;
and the bindings to one of the two are undone. -/
def shared : List Request :=
  [.create "lamp", .createAndBind "moth" ⟨1, 0⟩, .create "lamp", .bind 0 ⟨1, 0⟩, .bind 2 ⟨1, 0⟩,
    .createAndBind "owl" ⟨2, 0⟩, .bind 1 ⟨2, 0⟩, .unbind ⟨1, 0⟩]

theorem recounts_shared :
    (serve {} shared).size = 3 ∧ (serve {} shared).target? 0 = none ∧
      (serve {} shared).labelOf? ⟨2, 0⟩ = some 1 ∧ (serve {} shared).id? "owl" = some 2 ∧
      Recounts shared (serve {} shared) := by
  have hsize : (serve {} shared).size = 3 := by decide +kernel
  have hfew : (serve {} shared).size < 2 ^ 32 := by
    rw [hsize]
    decide
  have hall := recounts_serve shared hfew
  have howl : (serve {} shared).id? "owl" = some 2 :=
    (hall.id?_eq_some_iff _ _).mpr (by decide +kernel)
  exact ⟨hsize, by decide +kernel, by decide +kernel, howl, hall⟩

end EntityWorld.Labels
