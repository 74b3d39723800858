/-
# Steps in a row

What an action leaves behind, whether it succeeds or fails (`after`), and what can be
said at the end of a row of steps: what one of them brought about and all later ones
left is so at the end (`holds_foldl_iff_of_keeps`), and of the numbers that came up on the way
one is the largest (`highest`).

Nothing here is about worlds or pools, or about columns.

Key definitions: `after`, `Throughout`, `highest`.
Key theorems: `holds_foldl_iff_of_keeps`, `highest_le_iff`.
-/
import Mathlib.Tactic

namespace EntityWorld

/-! ### What an action leaves -/

/-- The state an action leaves, whether it succeeds or fails. -/
def after {ε σ α : Type} (act : EStateM ε σ α) (s : σ) : σ :=
  match act s with
  | .ok _ t => t
  | .error _ t => t

theorem after_of_ok {ε σ α : Type} {act : EStateM ε σ α} {s t : σ} {a : α}
    (h : act s = .ok a t) : after act s = t := by
  unfold after
  rw [h]

theorem after_of_error {ε σ α : Type} {act : EStateM ε σ α} {s t : σ} {c : ε}
    (h : act s = .error c t) : after act s = t := by
  unfold after
  rw [h]

theorem bind_of_ok {ε σ α β : Type} {act : EStateM ε σ α} {next : α → EStateM ε σ β} {s t : σ}
    {a : α} (h : act s = .ok a t) : (act >>= next) s = next a t := by
  simp only [bind, EStateM.bind, h]

theorem bind_of_error {ε σ α β : Type} {act : EStateM ε σ α} {next : α → EStateM ε σ β} {s t : σ}
    {c : ε} (h : act s = .error c t) : (act >>= next) s = .error c t := by
  simp only [bind, EStateM.bind, h]

theorem after_bind_of_ok {ε σ α β : Type} {act : EStateM ε σ α} {next : α → EStateM ε σ β}
    {s t : σ} {a : α} (h : act s = .ok a t) : after (act >>= next) s = after (next a) t := by
  unfold after
  rw [bind_of_ok h]

theorem after_bind_of_error {ε σ α β : Type} {act : EStateM ε σ α} {next : α → EStateM ε σ β}
    {s t : σ} {c : ε} (h : act s = .error c t) : after (act >>= next) s = t :=
  after_of_error (bind_of_error h)

/-! ### Steps in a row -/

section Steps

variable {σ ρ : Type} (step : ρ → σ → σ)

/-- Every one of some steps in a row is of a sort, where it is taken. -/
def Throughout (sort : ρ → σ → Prop) : σ → List ρ → Prop
  | _, [] => True
  | s, r :: rs => sort r s ∧ Throughout sort (step r s) rs

/-- A step brings something about, or leaves it so if it was. After some steps it is so if
one of them brought it about and all later ones left it, or if it was before and all
left it. What the steps do need be known only of states in which something else holds that
they keep. -/
theorem holds_foldl_iff_of_keeps {I P : σ → Prop} {brings leaves : ρ → σ → Prop} {rs : List ρ}
    (hkeeps : ∀ r ∈ rs, ∀ s, I s → I (step r s))
    (h : ∀ r ∈ rs, ∀ s, I s → (P (step r s) ↔ brings r s ∨ P s ∧ leaves r s)) {s : σ} (hs : I s) :
    P (rs.foldl (fun s r => step r s) s) ↔
      (∃ rs₁ r rs₂, rs = rs₁ ++ r :: rs₂ ∧ brings r (rs₁.foldl (fun s r => step r s) s) ∧
        Throughout step leaves (step r (rs₁.foldl (fun s r => step r s) s)) rs₂) ∨
      P s ∧ Throughout step leaves s rs := by
  induction rs generalizing s with
  | nil => simp [Throughout]
  | cons r rs ih =>
    have hnext := hkeeps r List.mem_cons_self s hs
    rw [List.foldl_cons, ih (fun r' hr' => hkeeps r' (List.mem_cons_of_mem r hr'))
        (fun r' hr' => h r' (List.mem_cons_of_mem r hr')) hnext,
      h r List.mem_cons_self s hs, or_and_right, ← or_assoc]
    refine or_congr ?_ (by rw [Throughout, and_assoc])
    constructor
    · rintro (⟨rs₁, r', rs₂, rfl, hbrings, hlater⟩ | ⟨hbrings, hlater⟩)
      · exact ⟨r :: rs₁, r', rs₂, rfl, hbrings, hlater⟩
      · exact ⟨[], r, rs, rfl, hbrings, hlater⟩
    · rintro ⟨rs₁, r', rs₂, hsplit, hbrings, hlater⟩
      cases rs₁ with
      | nil =>
        cases hsplit
        exact Or.inr ⟨hbrings, hlater⟩
      | cons r₁ rs₁ =>
        cases hsplit
        exact Or.inl ⟨rs₁, r', rs₂, rfl, hbrings, hlater⟩

theorem holds_foldl_iff {P : σ → Prop} {brings leaves : ρ → σ → Prop} {rs : List ρ}
    (h : ∀ r ∈ rs, ∀ s, P (step r s) ↔ brings r s ∨ P s ∧ leaves r s) (s : σ) :
    P (rs.foldl (fun s r => step r s) s) ↔
      (∃ rs₁ r rs₂, rs = rs₁ ++ r :: rs₂ ∧ brings r (rs₁.foldl (fun s r => step r s) s) ∧
        Throughout step leaves (step r (rs₁.foldl (fun s r => step r s) s)) rs₂) ∨
      P s ∧ Throughout step leaves s rs :=
  holds_foldl_iff_of_keeps step (I := fun _ => True) (fun _ _ _ _ => trivial)
    (fun r hr s _ => h r hr s) trivial

end Steps

/-! ### The largest number -/

/-- The largest of some numbers. -/
def highest (l : List Nat) : Nat := l.foldr max 0

theorem highest_le_iff {l : List Nat} {n : Nat} : highest l ≤ n ↔ ∀ x ∈ l, x ≤ n := by
  unfold highest
  induction l with
  | nil => simp
  | cons x l ih => rw [List.foldr_cons, max_le_iff, ih, List.forall_mem_cons]

theorem le_highest {l : List Nat} {x : Nat} (hx : x ∈ l) : x ≤ highest l :=
  highest_le_iff.mp (le_refl _) x hx

theorem highest_append (l l' : List Nat) : highest (l ++ l') = max (highest l) (highest l') :=
  eq_of_forall_ge_iff fun n => by
    simp only [max_le_iff, highest_le_iff, List.forall_mem_append]

end EntityWorld
