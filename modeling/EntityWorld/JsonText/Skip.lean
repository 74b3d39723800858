/-
# JSON text: passing over a value

An unknown field is passed over together with its value, which may be nested to
any depth. `skip` keeps the brackets that are open, innermost first, and where
in the innermost one it stands.

Key definitions: `skipScalar`, `skip`, `skipValue`.
-/
import EntityWorld.JsonText.Scan

namespace EntityWorld.JsonText

inductive Bracket where
  | array
  | object
deriving DecidableEq

/-- The character that closes a bracket. -/
def closing : Bracket → Char
  | .array => ']'
  | .object => '\x7d'

/-- Where in a text a reader stands. -/
inductive Place where
  /-- Before a value. -/
  | value
  /-- Before the name of a member. -/
  | name
  /-- After an opening bracket. -/
  | opened
  /-- After a value. -/
  | closed
deriving DecidableEq

/-- Passes over a value without brackets. -/
def skipScalar (cs : List Char) : Except Fault (List Char) :=
  match cs with
  | [] => .error .truncated
  | c :: rest =>
    if c == 'n' then literal "ull".toList rest
    else if c == 't' then literal "rue".toList rest
    else if c == 'f' then literal "alse".toList rest
    else if c == '"' then skipString rest
    else if c == '-' || c.isDigit then (scanNumber .malformed cs).map (·.2)
    else .error .malformed

/-- Reads the colon after the name of a member. -/
def readColon (cs : List Char) : Except Fault (List Char) :=
  match skipBlank cs with
  | [] => .error .truncated
  | c :: rest => if c == ':' then .ok rest else .error .malformed

/-! ### What is read is behind -/

theorem length_dropWhile_le {α : Type} (p : α → Bool) (cs : List α) :
    (cs.dropWhile p).length ≤ cs.length :=
  (List.dropWhile_suffix p).length_le

theorem length_skipBlank_le (cs : List Char) : (skipBlank cs).length ≤ cs.length :=
  length_dropWhile_le _ _

theorem length_literal_le : ∀ {es cs rest : List Char},
    literal es cs = .ok rest → rest.length ≤ cs.length
  | [], cs, rest, h => by simp only [literal, Except.ok.injEq] at h; simp [h]
  | _ :: _, [], _, h => by simp [literal] at h
  | e :: es, c :: cs, rest, h => by
    simp only [literal] at h
    split at h
    · have := length_literal_le h
      simp only [List.length_cons]; omega
    · simp at h

theorem length_skipString_le (cs rest : List Char) (h : skipString cs = .ok rest) :
    rest.length ≤ cs.length := by
  fun_induction skipString cs with
  | case1 => simp at h
  | case2 => simp at h
  | case3 a b c d tail _ ih => have := ih h; simp only [List.length_cons]; omega
  | case4 => simp at h
  | case5 => simp at h
  | case6 c tail _ _ ih => have := ih h; simp only [List.length_cons]; omega
  | case7 => simp at h
  | case8 c tail => simp only [Except.ok.injEq] at h; simp [h]
  | case9 => simp at h
  | case10 c tail _ _ _ ih => have := ih h; simp only [List.length_cons]; omega

theorem length_scanDigits_lt {short : Fault} {cs digits rest : List Char}
    (h : scanDigits short cs = .ok (digits, rest)) : rest.length < cs.length := by
  unfold scanDigits at h
  split at h
  · simp at h
  · next c tail =>
    split at h
    · next hc =>
      simp only [Except.ok.injEq, Prod.mk.injEq] at h
      rw [← h.2, List.dropWhile_cons_of_pos hc, List.length_cons]
      exact Nat.lt_succ_of_le (length_dropWhile_le _ _)
    · simp at h

theorem length_scanFraction_le {short : Fault} {cs digits rest : List Char}
    (h : scanFraction short cs = .ok (digits, rest)) : rest.length ≤ cs.length := by
  unfold scanFraction at h
  split at h
  · have := length_scanDigits_lt h
    simp only [List.length_cons]; omega
  · simp only [Except.ok.injEq, Prod.mk.injEq] at h
    simp [h.2]

theorem length_scanSign_le (cs : List Char) : (scanSign cs).2.length ≤ cs.length := by
  unfold scanSign; split <;> simp

theorem length_scanMinus_le (cs : List Char) : (scanMinus cs).2.length ≤ cs.length := by
  unfold scanMinus; split <;> simp

theorem length_scanExponent_le {short : Fault} {cs rest : List Char}
    {e : Option (Bool × List Char)} (h : scanExponent short cs = .ok (e, rest)) :
    rest.length ≤ cs.length := by
  unfold scanExponent at h
  split at h
  · simp only [Except.ok.injEq, Prod.mk.injEq] at h
    simp [← h.2]
  · next c tail =>
    split at h
    · cases hd : scanDigits short (scanSign tail).2 with
      | error f => simp [hd, bind, Except.bind] at h
      | ok r =>
        simp only [hd, bind, Except.bind, Except.ok.injEq, Prod.mk.injEq] at h
        have h₁ := length_scanDigits_lt (show _ = Except.ok (r.1, r.2) from hd)
        have h₂ := length_scanSign_le tail
        simp only [List.length_cons, ← h.2]; omega
    · simp only [Except.ok.injEq, Prod.mk.injEq] at h
      simp [← h.2]

theorem length_scanNumber_lt {short : Fault} {cs rest : List Char} {n : NumberText}
    (h : scanNumber short cs = .ok (n, rest)) : rest.length < cs.length := by
  unfold scanNumber at h
  simp only [bind, Except.bind] at h
  cases h₁ : scanDigits short (scanMinus cs).2 with
  | error f => simp [h₁] at h
  | ok r₁ =>
    simp only [h₁] at h
    split at h
    · simp [throw, throwThe, MonadExceptOf.throw] at h
    · cases h₂ : scanFraction short r₁.2 with
      | error f => simp [h₂] at h
      | ok r₂ =>
        cases h₃ : scanExponent short r₂.2 with
        | error f => simp [h₂, h₃] at h
        | ok r₃ =>
          simp only [h₂, h₃, Except.ok.injEq, Prod.mk.injEq] at h
          have l₀ := length_scanMinus_le cs
          have l₁ := length_scanDigits_lt (show _ = Except.ok (r₁.1, r₁.2) from h₁)
          have l₂ := length_scanFraction_le (show _ = Except.ok (r₂.1, r₂.2) from h₂)
          have l₃ := length_scanExponent_le (show _ = Except.ok (r₃.1, r₃.2) from h₃)
          rw [← h.2]; omega

theorem length_skipScalar_lt {cs rest : List Char} (h : skipScalar cs = .ok rest) :
    rest.length < cs.length := by
  unfold skipScalar at h
  split at h
  · simp at h
  · next c tail =>
    simp only [List.length_cons]
    repeat' split at h
    · have := length_literal_le h; omega
    · have := length_literal_le h; omega
    · have := length_literal_le h; omega
    · have := length_skipString_le _ _ h; omega
    · cases hn : scanNumber .malformed (c :: tail) with
      | error f => simp [hn, Except.map] at h
      | ok r =>
        simp only [hn, Except.map, Except.ok.injEq] at h
        have := length_scanNumber_lt (show _ = Except.ok (r.1, r.2) from hn)
        simp only [List.length_cons] at this
        rw [← h]; omega
    · simp at h

theorem length_readColon_lt {cs rest : List Char} (h : readColon cs = .ok rest) :
    rest.length < cs.length := by
  unfold readColon at h
  have := length_skipBlank_le cs
  split at h
  · simp at h
  · next c tail hc =>
    rw [hc, List.length_cons] at this
    split at h
    · simp only [Except.ok.injEq] at h; rw [← h]; omega
    · simp at h

/-! ### Brackets -/

/-- Passes over the rest of a value: `brackets` are open, the innermost first, and
the text goes on at the given place of the innermost one. -/
def skip (place : Place) (brackets : List Bracket) (cs : List Char) : Except Fault (List Char) :=
  match place, brackets with
  | .closed, [] => .ok cs
  | .closed, b :: outer =>
    match _h : skipBlank cs with
    | [] => .error .truncated
    | c :: rest =>
      if c == ',' then skip (if b = .array then .value else .name) (b :: outer) rest
      else if c == closing b then skip .closed outer rest
      else .error .malformed
  | .opened, [] => .error .malformed
  | .opened, b :: outer =>
    match _h : skipBlank cs with
    | [] => .error .truncated
    | c :: rest =>
      if c == closing b then skip .closed outer rest
      else skip (if b = .array then .value else .name) (b :: outer) (c :: rest)
  | .name, brackets =>
    match _h : skipBlank cs with
    | [] => .error .truncated
    | c :: rest =>
      if c == '"' then
        match _h₁ : skipString rest with
        | .error f => .error f
        | .ok rest =>
          match _h₂ : readColon rest with
          | .error f => .error f
          | .ok rest => skip .value brackets rest
      else .error .malformed
  | .value, brackets =>
    match _h : skipBlank cs with
    | [] => .error .truncated
    | c :: rest =>
      if c == '[' then skip .opened (.array :: brackets) rest
      else if c == '\x7b' then skip .opened (.object :: brackets) rest
      else
        match _h₁ : skipScalar (c :: rest) with
        | .error f => .error f
        | .ok rest => skip .closed brackets rest
termination_by (cs.length, if place = .opened then 1 else 0)
decreasing_by
  all_goals
    have hb := length_skipBlank_le cs
    rw [_h, List.length_cons] at hb
  · exact Prod.Lex.left _ _ (by omega)
  · exact Prod.Lex.left _ _ (by omega)
  · exact Prod.Lex.left _ _ (by omega)
  · rcases Nat.lt_or_eq_of_le hb with hlt | heq
    · exact Prod.Lex.left _ _ (by simpa using hlt)
    · rw [List.length_cons, heq]
      refine Prod.Lex.right _ ?_
      cases b <;> simp
  · have l₁ := length_skipString_le _ _ _h₁
    have l₂ := length_readColon_lt _h₂
    exact Prod.Lex.left _ _ (by omega)
  · exact Prod.Lex.left _ _ (by omega)
  · exact Prod.Lex.left _ _ (by omega)
  · have l₁ := length_skipScalar_lt _h₁
    rw [List.length_cons] at l₁
    exact Prod.Lex.left _ _ (by omega)

/-- Passes over one value. -/
def skipValue (cs : List Char) : Except Fault (List Char) := skip .value [] cs

end EntityWorld.JsonText
