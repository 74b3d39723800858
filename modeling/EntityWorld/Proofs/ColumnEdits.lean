/-
# What is read of a column after many edits

A column is a map from positions to values, and a length. Whatever was done to it, a
position holds the value that was written there last, unless the position was emptied
since; and the length is told by the largest position that was ever opened, filled or
not. Emptying a position never shortens the column.

Some edits write one position (`Edit.site?`) and others go through all positions there
are, so that what an edit leaves at a position depends on the column it meets
(`Edit.leaves?`). A constructor that fails leaves its position open and empty.

Columns can be copied, and a copy goes its own way from then on. So a run is told of all
columns at once (`bench`), each with the edits that led to it (`histories`).

Key definitions: `Column.sweep`, `Column.Edit`, `Column.Edit.leaves?`, `Column.edited`,
`Column.bench`, `Column.histories`, `Column.Reflects`.
Key theorems: `Column.get?_apply`, `Column.size_apply`, `Column.forall₂_reflects`.
-/
import EntityWorld.Proofs.Columns
import EntityWorld.Proofs.Runs
import Mathlib.Tactic

namespace EntityWorld.Column

variable {α : Type} {c : Column α}

/-! ### Going through a column -/

/-- The column with every content changed, by position. -/
def sweep (f : Nat → Option α → Option α) (c : Column α) : Column α := ⟨c.slots.mapIdx f⟩

@[simp] theorem size_sweep (f : Nat → Option α → Option α) (c : Column α) :
    (c.sweep f).size = c.size := Array.size_mapIdx

/-- Past the end there is nothing to change. -/
theorem get?_sweep (f : Nat → Option α → Option α) (c : Column α) (p : Nat) :
    (c.sweep f).get? p = if p < c.size then f p (c.get? p) else none := by
  simp only [get?, sweep, Array.getElem?_mapIdx]
  split
  · next h => rw [Array.getElem?_eq_getElem h]; rfl
  · next h => rw [Array.getElem?_eq_none (Nat.le_of_not_lt h)]; rfl

/-! ### Edits -/

/-- What can be done to a column. -/
inductive Edit (α : Type) where
  | insert (i : UInt64) (v : α)
  /-- A value made in its place, by a constructor that may fail. -/
  | emplace (i : UInt64) (make : Unit → Option α)
  | erase (i : Nat)
  /-- A write to a value that is there. -/
  | modify (i : Nat) (f : α → α)
  /-- Writes to the contents of all positions, filled or not. -/
  | sweep (f : Nat → Option α → Option α)
  /-- Writes to all values that are there. -/
  | sweepPresent (f : Nat → α → α)

namespace Edit

/-- The column after an edit. -/
def apply : Edit α → Column α → Column α
  | insert i v, c => after (Column.write i (some v)) c
  | emplace i make, c => after (Column.write i (make ())) c
  | erase i, c => c.erase i
  | modify i f, c => c.modify i f
  | sweep f, c => c.sweep f
  | sweepPresent f, c => c.sweep fun i => Option.map (f i)

/-- An edit opens no position that a column cannot have. -/
def Fits : Edit α → Prop
  | insert i _ | emplace i _ => i.toNat < limit
  | erase _ | modify _ _ | sweep _ | sweepPresent _ => True

/-- The position that an edit opens if it is not yet open. -/
def opens? : Edit α → Option Nat
  | insert i _ | emplace i _ => some i.toNat
  | erase _ | modify _ _ | sweep _ | sweepPresent _ => none

/-- The one position that an edit is about. -/
def site? : Edit α → Option Nat
  | insert i _ | emplace i _ => some i.toNat
  | erase i | modify i _ => some i
  | sweep _ | sweepPresent _ => none

/-- What an edit writes to a position, if it writes there. -/
def leaves? : Edit α → Column α → Nat → Option (Option α)
  | insert i v, _, p => if p = i.toNat then some (some v) else none
  | emplace i make, _, p => if p = i.toNat then some (make ()) else none
  | erase i, _, p => if p = i then some none else none
  | modify i f, c, p => if p = i then (c.get? p).map fun v => some (f v) else none
  | sweep f, c, p => if p < c.size then some (f p (c.get? p)) else none
  | sweepPresent f, c, p => (c.get? p).map fun v => some (f p v)

end Edit

/-- To change every value is an edit. -/
theorem map_eq_apply (f : α → α) (c : Column α) : c.map f = (Edit.sweepPresent fun _ => f).apply c :=
  congrArg mk (Array.ext (by simp) (by simp))

/-- To fill all that is empty is an edit. -/
theorem fill_eq_apply (v : α) (c : Column α) :
    c.fill v = (Edit.sweep fun _ o => some (o.getD v)).apply c :=
  congrArg mk (Array.ext (by simp) (by simp))

/-- The column after some edits, one after another. -/
def edited (c : Column α) (xs : List (Edit α)) : Column α := xs.foldl (fun c x => x.apply c) c

/-- None of some edits writes to the position. -/
def Undisturbed (c : Column α) (xs : List (Edit α)) (p : Nat) : Prop :=
  Throughout Edit.apply (fun x c => x.leaves? c p = none) c xs

/-! ### What an edit comes to -/

theorem after_write {i : UInt64} (hi : i.toNat < limit) (o : Option α) (c : Column α) :
    after (Column.write i o) c = c.put i.toNat o := after_of_ok (if_pos hi)

/-- A position has what an edit writes to it, and else what it had. -/
theorem get?_apply {x : Edit α} (hx : x.Fits) (c : Column α) (p : Nat) :
    (x.apply c).get? p = (x.leaves? c p).getD (c.get? p) := by
  cases x with
  | insert i v =>
    rw [Edit.apply, after_write hx, get?_put, Edit.leaves?, apply_ite (Option.getD · (c.get? p))]
    rfl
  | emplace i make =>
    rw [Edit.apply, after_write hx, get?_put, Edit.leaves?, apply_ite (Option.getD · (c.get? p))]
    rfl
  | erase i =>
    rw [Edit.apply, get?_erase, Edit.leaves?, apply_ite (Option.getD · (c.get? p))]
    rfl
  | modify i f =>
    rw [Edit.apply, get?_modify, Edit.leaves?]
    split
    · next h =>
      rw [h]
      cases c.get? i <;> rfl
    · rfl
  | sweep f =>
    rw [Edit.apply, get?_sweep, Edit.leaves?]
    split
    · rfl
    · next h => rw [get?_eq_none_of_size_le (Nat.le_of_not_lt h), Option.getD_none]
  | sweepPresent f =>
    rw [Edit.apply, get?_sweep, Edit.leaves?]
    split
    · cases c.get? p <;> rfl
    · next h => rw [get?_eq_none_of_size_le (Nat.le_of_not_lt h)]; rfl

/-- An edit of one position leaves the others as they are. -/
theorem get?_apply_of_ne {x : Edit α} (hx : x.Fits) (c : Column α) {p q : Nat}
    (hp : x.site? = some p) (hq : q ≠ p) : (x.apply c).get? q = c.get? q := by
  rw [get?_apply hx]
  cases x with
  | insert | emplace | erase | modify =>
    cases hp
    rw [Edit.leaves?, if_neg hq]
    rfl
  | sweep | sweepPresent => cases hp

/-- A column grows by the position that is opened, and never shrinks. -/
theorem size_apply {x : Edit α} (hx : x.Fits) (c : Column α) :
    (x.apply c).size = max c.size (highest (x.opens?.toList.map (· + 1))) := by
  cases x with
  | insert i v =>
    rw [Edit.apply, after_write hx, size_put]
    rfl
  | emplace i make =>
    rw [Edit.apply, after_write hx, size_put]
    rfl
  | erase i => exact (size_erase c i).trans (Nat.max_zero _).symm
  | modify i f => exact (size_modify c i f).trans (Nat.max_zero _).symm
  | sweep f => exact (size_sweep f c).trans (Nat.max_zero _).symm
  | sweepPresent f => exact (size_sweep _ c).trans (Nat.max_zero _).symm

/-! ### Many edits -/

variable {xs : List (Edit α)}

theorem edited_append (c : Column α) (xs ys : List (Edit α)) :
    edited c (xs ++ ys) = edited (edited c xs) ys := List.foldl_append

/-- The last edit that writes to a position tells what is there. -/
theorem get?_edited_eq_some_iff (hxs : ∀ x ∈ xs, x.Fits) (p : Nat) (v : α) :
    (edited {} xs).get? p = some v ↔
      ∃ xs₁ x xs₂, xs = xs₁ ++ x :: xs₂ ∧ x.leaves? (edited {} xs₁) p = some (some v) ∧
        Undisturbed (x.apply (edited {} xs₁)) xs₂ p := by
  have hstep : ∀ x ∈ xs, ∀ c : Column α, (x.apply c).get? p = some v ↔
      x.leaves? c p = some (some v) ∨ c.get? p = some v ∧ x.leaves? c p = none := by
    intro x hx c
    rw [get?_apply (hxs x hx)]
    cases x.leaves? c p <;> simp
  refine (holds_foldl_iff Edit.apply (P := fun c => c.get? p = some v) hstep {}).trans
    (or_iff_left fun h => ?_)
  rw [get?_empty] at h
  cases h.1

theorem size_edited (hxs : ∀ x ∈ xs, x.Fits) (c : Column α) :
    (edited c xs).size = max c.size (highest ((xs.filterMap Edit.opens?).map (· + 1))) := by
  induction xs generalizing c with
  | nil => exact (Nat.max_zero _).symm
  | cons x xs ih =>
    have happend : (x :: xs).filterMap Edit.opens? =
        x.opens?.toList ++ xs.filterMap Edit.opens? := by
      rw [List.filterMap_cons]
      cases x.opens? <;> rfl
    calc (edited c (x :: xs)).size
        = max (x.apply c).size (highest ((xs.filterMap Edit.opens?).map (· + 1))) :=
          ih (fun y hy => hxs y (List.mem_cons_of_mem x hy)) (x.apply c)
      _ = max c.size (highest (((x :: xs).filterMap Edit.opens?).map (· + 1))) := by
          rw [size_apply (hxs x List.mem_cons_self), happend, List.map_append, highest_append,
            max_assoc]

/-! ### Copies -/

/-- What is done with columns that lie side by side: one of them is edited, or a copy of
one is put beside them. -/
inductive Deed (α : Type) where
  | edit (n : Nat) (x : Edit α)
  | clone (n : Nat)

namespace Deed

/-- A deed on things that are edited by `g`. -/
def apply {β : Type} (g : Edit α → β → β) : Deed α → List β → List β
  | edit n x, bs => bs.modify n (g x)
  | clone n, bs => bs ++ bs[n]?.toList

def Fits : Deed α → Prop
  | edit _ x => x.Fits
  | clone _ => True

end Deed

/-- The columns after some deeds, the first column being empty. -/
def bench (ds : List (Deed α)) : List (Column α) :=
  ds.foldl (fun cs d => d.apply Edit.apply cs) [{}]

/-- The edits that led to each column, those of the column it is a copy of among them. -/
def histories (ds : List (Deed α)) : List (List (Edit α)) :=
  ds.foldl (fun hs d => d.apply (fun x xs => xs ++ [x]) hs) [[]]

/-- Deeds do the same to things that are told by others. -/
theorem map_apply {β γ : Type} {g : Edit α → β → β} {g' : Edit α → γ → γ} {h : β → γ}
    (hg : ∀ x b, h (g x b) = g' x (h b)) (d : Deed α) (bs : List β) :
    (d.apply g bs).map h = d.apply g' (bs.map h) := by
  cases d with
  | edit n x =>
    refine List.ext_getElem? fun m => ?_
    rw [Deed.apply, Deed.apply, List.getElem?_map, List.getElem?_modify, List.getElem?_modify,
      List.getElem?_map]
    cases bs[m]? with
    | none => rfl
    | some b => by_cases hm : n = m <;> simp [hm, hg]
  | clone n =>
    rw [Deed.apply, Deed.apply, List.map_append, List.getElem?_map]
    cases bs[n]? <;> rfl

/-- A column is what the edits that led to it make of an empty one. -/
theorem bench_eq (ds : List (Deed α)) : bench ds = (histories ds).map (edited {}) := by
  have hall : ∀ hs : List (List (Edit α)),
      ds.foldl (fun cs d => d.apply Edit.apply cs) (hs.map (edited {})) =
        (ds.foldl (fun hs d => d.apply (fun x xs => xs ++ [x]) hs) hs).map (edited {}) := by
    induction ds with
    | nil => exact fun _ => rfl
    | cons d ds ih =>
      intro hs
      rw [List.foldl_cons, List.foldl_cons, ← ih, map_apply fun x xs => edited_append {} xs [x]]
  exact hall [[]]

/-- What holds of the things before a deed holds of them after it, if edits keep it. -/
theorem forall_mem_apply {β : Type} {g : Edit α → β → β} {P : β → Prop} {d : Deed α}
    (hg : ∀ x : Edit α, x.Fits → ∀ b, P b → P (g x b)) (hd : d.Fits) {bs : List β}
    (hbs : ∀ b ∈ bs, P b) : ∀ b ∈ d.apply g bs, P b := by
  intro b hb
  cases d with
  | edit n x =>
    obtain ⟨m, hm⟩ := List.mem_iff_getElem?.mp hb
    rw [Deed.apply, List.getElem?_modify] at hm
    obtain ⟨b', hb', rfl⟩ := Option.map_eq_some_iff.mp hm
    have hP := hbs b' (List.mem_of_getElem? hb')
    split
    · exact hg x hd b' hP
    · exact hP
  | clone n =>
    rcases List.mem_append.mp hb with hold | hnew
    · exact hbs b hold
    · exact hbs b (List.mem_of_getElem? (Option.mem_toList.mp hnew))

theorem fits_of_mem_histories {ds : List (Deed α)} (hds : ∀ d ∈ ds, d.Fits) :
    ∀ xs ∈ histories ds, ∀ x ∈ xs, x.Fits := by
  have hall : ∀ hs : List (List (Edit α)), (∀ xs ∈ hs, ∀ x ∈ xs, x.Fits) →
      ∀ xs ∈ ds.foldl (fun hs d => d.apply (fun x xs => xs ++ [x]) hs) hs, ∀ x ∈ xs, x.Fits := by
    induction ds with
    | nil => exact fun _ h => h
    | cons d ds ih =>
      intro hs h
      refine ih (fun d' hd' => hds d' (List.mem_cons_of_mem d hd')) _ (forall_mem_apply ?_
        (hds d List.mem_cons_self) h)
      exact fun x hx xs hxs => List.forall_mem_append.mpr ⟨hxs, List.forall_mem_singleton.mpr hx⟩
  exact hall [[]] (List.forall_mem_singleton.mpr nofun)

/-! ### What a column tells of its edits -/

/-- What is read of a column, told by the edits that led to it. -/
structure Reflects (xs : List (Edit α)) (c : Column α) : Prop where
  /-- A value is there if it was written last. -/
  get?_eq_some_iff : ∀ p v, c.get? p = some v ↔
    ∃ xs₁ x xs₂, xs = xs₁ ++ x :: xs₂ ∧ x.leaves? (edited {} xs₁) p = some (some v) ∧
      Undisturbed (x.apply (edited {} xs₁)) xs₂ p
  /-- The column ends with the largest position that was opened. -/
  size_eq : c.size = highest ((xs.filterMap Edit.opens?).map (· + 1))
  contains_iff : ∀ p, c.contains p ↔ ∃ v, c.get? p = some v
  slots_eq : c.slots.toList = (List.range c.size).map c.get?
  mem_present_iff : ∀ p v, (p, v) ∈ c.present ↔ c.get? p = some v
  present_ascending : (c.present.map (·.1)).Pairwise (· < ·)
  length_present : c.present.length = c.count
  /-- And a further edit of one position leaves the others as they are. -/
  get?_apply_of_ne : ∀ (x : Edit α) (p q : Nat), x.Fits → x.site? = some p → q ≠ p →
    (x.apply c).get? q = c.get? q

theorem reflects_edited (hxs : ∀ x ∈ xs, x.Fits) : Reflects xs (edited {} xs) where
  get?_eq_some_iff := get?_edited_eq_some_iff hxs
  size_eq := (size_edited hxs {}).trans (Nat.zero_max _)
  contains_iff _ := Option.isSome_iff_exists
  slots_eq := by
    refine List.ext_getElem (by simp [size]) fun i hi hi' => ?_
    have hlt : i < (edited {} xs).slots.size := by simpa using hi
    simp [get?, hlt]
  mem_present_iff _ _ := mem_present
  present_ascending := by
    rw [map_fst_present]
    exact List.pairwise_lt_range.filter _
  length_present := Column.length_present _
  get?_apply_of_ne _ _ _ hx := Column.get?_apply_of_ne hx _

/-- **A column is a map and a length.** Whatever was done to columns and copies of them,
each tells of the edits that led to it, and of no others. -/
theorem forall₂_reflects (ds : List (Deed α)) (hds : ∀ d ∈ ds, d.Fits) :
    List.Forall₂ Reflects (histories ds) (bench ds) := by
  rw [bench_eq, List.forall₂_map_right_iff, List.forall₂_same]
  exact fun xs hxs => reflects_edited (fits_of_mem_histories hds xs hxs)

/-- A column is copied; then a constructor fails on the copy, and the other is emptied at
two positions, of which one is past its end. -/
def copyEdited : List (Deed Nat) :=
  [.edit 0 (.insert 4 7), .edit 0 (.emplace 1 fun _ => some 8), .clone 0,
    .edit 1 (.emplace 4 fun _ => none), .edit 1 (.sweepPresent fun i v => i + v),
    .edit 0 (.erase 1), .edit 0 (.erase 9), .edit 0 (.sweep fun i o => if i = 0 then some 3 else o)]

theorem forall₂_reflects_copyEdited :
    (∀ d ∈ copyEdited, d.Fits) ∧
      (bench copyEdited).map (·.slots.toList) =
        [[some 3, none, none, none, some 7], [none, some 9, none, none, none]] ∧
      List.Forall₂ Reflects (histories copyEdited) (bench copyEdited) := by
  have hfits : ∀ d ∈ copyEdited, d.Fits := by
    simp [copyEdited, Deed.Fits, Edit.Fits, limit]
  exact ⟨hfits, by decide +kernel, forall₂_reflects copyEdited hfits⟩

end EntityWorld.Column
