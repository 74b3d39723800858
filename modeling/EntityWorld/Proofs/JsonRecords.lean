/-
# Records in JSON texts

A record is read from an object member by member, in whatever order they are given.
If each of its members can be read where it stands, which for one that is no field
of the record means that its value is JSON, then the whole is what the members make
of the record one after the other (`parseRecord_object`).

The values of fields are read as they are written: natural numbers in decimal, and words
as strings, whatever escapes they are spelled with. An object may be written without
blanks (`objectText_compact`).

Key definitions: `Member`, `Members`, `ObjectText`, `Member.compact`, `Reads`, `ReadsAll`.
Key theorems: `readNatural_repr`, `readWord_spells`, `objectText_compact`, `Reads.natural`,
`Reads.word`, `readMembers_members`, `parseRecord_object`.
-/
import EntityWorld.JsonText.Fields
import EntityWorld.Proofs.JsonGrammar
import Mathlib.Tactic

namespace EntityWorld.JsonText

/-! ### Numbers and words -/

section Values

variable {b rest : List Char}

/-- Only zero starts with a zero. -/
theorem eq_zero_of_head?_toDigits {n : Nat} (h : (Nat.toDigits 10 n).head? = some '0') : n = 0 := by
  induction n using Nat.strong_induction_on with
  | h n ih =>
    by_cases hn : n < 10
    · have hdigit : ∀ n < 10, Nat.digitChar n = '0' → n = 0 := by decide
      rw [Nat.toDigits_of_lt_base hn] at h
      exact hdigit n hn (Option.some.inj h)
    · rw [Nat.toDigits_of_base_le (by decide) (Nat.not_lt.mp hn),
        List.head?_append_of_ne_nil _ Nat.toDigits_ne_nil] at h
      have hquotient := ih (n / 10) (by omega) h
      omega

theorem digits_repr (n : Nat) : Digits n.repr.toList := by
  rw [Nat.toList_repr]
  exact ⟨Nat.toDigits_ne_nil, fun c hc => Nat.isDigit_of_mem_toDigits (by decide) (by decide) hc⟩

theorem spelt_repr (n : Nat) :
    NumberText.Spelt { negative := false, whole := n.repr.toList } n.repr.toList := by
  have hzero : n.repr.toList.head? = some '0' → n.repr.toList = ['0'] := by
    intro h
    rw [Nat.toList_repr] at h
    rw [eq_zero_of_head?_toDigits h]
    rfl
  have h := NumberText.Spelt.mk .none (by decide) (digits_repr n) hzero .none .none
  rwa [List.append_nil, List.append_nil, List.nil_append] at h

theorem readNatural_repr {n limit : Nat} (hn : n < limit) (hb : Blank b) (hrest : Ends rest) :
    readNatural limit (b ++ (n.repr.toList ++ rest)) = .ok (n, rest) := by
  have hscan : scanNumber .truncated (n.repr.toList ++ rest) = .ok (_, rest) :=
    scanNumber_spelt (spelt_repr n) hrest
  have hvalue : NumberText.toNat? { negative := false, whole := n.repr.toList } = some n := by
    simp [NumberText.toNat?, Nat.ofDigitChars_ten_toDigits]
  obtain ⟨c, tail, hcs, hc, hne⟩ := (spelt_repr n).exists_cons
  have hblank : ¬ isBlank c := fun h => by
    rcases isBlank_iff.mp h with h | h | h | h <;> exact hne _ rfl h
  have hskip : skipBlank (b ++ (n.repr.toList ++ rest)) = c :: (tail ++ rest) := by
    rw [hcs]
    exact skipBlank_append_cons hb hblank _
  rw [hcs, List.cons_append, ← hcs] at hscan
  unfold readNatural
  rw [hskip]
  simp only [hc, hscan, hvalue, hn, bind, Except.bind, ↓reduceIte]

theorem readWord_spells {α : Type} {ofWord : String → Option α} {t : List Char} {word : String}
    {a : α} (ht : Spells t word.toList) (ha : ofWord word = some a) (hb : Blank b)
    (rest : List Char) : readWord ofWord (b ++ ('"' :: t ++ ['"'] ++ rest)) = .ok (a, rest) := by
  have hskip : skipBlank (b ++ ('"' :: t ++ ['"'] ++ rest)) = '"' :: (t ++ '"' :: rest) := by
    rw [List.append_assoc, List.cons_append]
    exact skipBlank_append_cons hb (by decide) _
  have hknown : readKnown ofWord (t ++ '"' :: rest) = .ok (a, rest) := by
    simp [readKnown, readString_spells ht, ha, bind, Except.bind]
  unfold readWord
  rw [hskip]
  exact hknown

end Values

/-! ### Members -/

/-- A member of an object: its name, and the text of its value. -/
structure Member where
  name : String
  value : List Char

/-- The texts of a member, without the blanks around it. -/
inductive Member.Text (m : Member) : List Char → Prop
  | mk {t b b' : List Char} : Spells t m.name.toList → Blank b → Blank b' →
      Text m ('"' :: t ++ '"' :: b ++ ':' :: b' ++ m.value)

/-- The compact text of a member, whose name is spelled without escapes. -/
theorem text_compact {name : String} (hname : ∀ c ∈ name.toList, Plain c) (v : List Char) :
    Member.Text ⟨name, v⟩ ('"' :: name.toList ++ '"' :: ':' :: v) := by
  have h := Member.Text.mk (m := ⟨name, v⟩) (.of_plain hname) Blank.nil Blank.nil
  simpa using h

/-- The texts of the members to come, each but the first after a comma, and of the end of their
object. -/
inductive Members : Bool → List Member → List Char → Prop
  | close {first : Bool} {b : List Char} : Blank b → Members first [] (b ++ ['\x7d'])
  | first {m : Member} {ms : List Member} {b cs ds : List Char} : Blank b → m.Text cs →
      Members false ms ds → Members true (m :: ms) (b ++ cs ++ ds)
  | next {m : Member} {ms : List Member} {b b' cs ds : List Char} : Blank b → Blank b' →
      m.Text cs → Members false ms ds → Members false (m :: ms) (b ++ ',' :: b' ++ cs ++ ds)

/-- The texts of an object with some members, in their order. -/
inductive ObjectText (ms : List Member) : List Char → Prop
  | mk {b cs b' : List Char} : Blank b → Members true ms cs → Blank b' →
      ObjectText ms (b ++ '\x7b' :: cs ++ b')

/-- The text of a member without blanks, its name spelled without escapes. -/
def Member.compact (m : Member) : List Char := '"' :: m.name.toList ++ '"' :: ':' :: m.value

theorem members_compact {ms : List Member} (h : ∀ m ∈ ms, ∀ c ∈ m.name.toList, Plain c) :
    Members false ms (ms.flatMap (fun m => ',' :: m.compact) ++ ['\x7d']) := by
  induction ms with
  | nil => exact .close .nil
  | cons m ms ih =>
    have hm := text_compact (h m List.mem_cons_self) m.value
    have hms := ih fun m' hm' => h m' (List.mem_cons_of_mem m hm')
    simpa [Member.compact] using Members.next .nil .nil hm hms

/-- An object may be written without blanks. -/
theorem objectText_compact {m : Member} {ms : List Member}
    (h : ∀ m' ∈ m :: ms, ∀ c ∈ m'.name.toList, Plain c) :
    ObjectText (m :: ms)
      ('\x7b' :: m.compact ++ ms.flatMap (fun m => ',' :: m.compact) ++ ['\x7d']) := by
  have hm := text_compact (h m List.mem_cons_self) m.value
  have hms := members_compact fun m' hm' => h m' (List.mem_cons_of_mem m hm')
  simpa [Member.compact] using ObjectText.mk .nil (.first .nil hm hms) .nil

/-! ### Records -/

section Records

variable {σ : Type} {fields : List (RecordField σ)} {m : Member} {ms : List Member} {s s' : σ}
  {b b' cs rest : List Char} {first : Bool} {fuel : Nat}

/-- What a member makes of the record, where it stands. One that is no field makes nothing of it. -/
inductive Reads (fields : List (RecordField σ)) (m : Member) (s : σ) : σ → Prop
  | field {f : RecordField σ} {s' : σ} : fields.find? (·.name == m.name) = some f →
      f.isSet s = false →
      (∀ b rest, Blank b → Ends rest → f.read s (b ++ (m.value ++ rest)) = .ok (s', rest)) →
      Reads fields m s s'
  | other : fields.find? (·.name == m.name) = none → Written .value m.value → Reads fields m s s

/-- A field that is read as a natural number is read from its decimal text. -/
theorem Reads.natural {f : RecordField σ} {n limit : Nat}
    (hfind : fields.find? (·.name == m.name) = some f) (hset : f.isSet s = false)
    (hvalue : m.value = n.repr.toList) (hn : n < limit)
    (hread : ∀ cs rest, readNatural limit cs = .ok (n, rest) → f.read s cs = .ok (s', rest)) :
    Reads fields m s s' := by
  refine .field hfind hset fun b rest hb hrest => hread _ rest ?_
  rw [hvalue]
  exact readNatural_repr hn hb hrest

/-- A field that is read as a word is read from what spells the word between quotes. -/
theorem Reads.word {α : Type} {ofWord : String → Option α} {f : RecordField σ} {t : List Char}
    {word : String} {a : α} (hfind : fields.find? (·.name == m.name) = some f)
    (hset : f.isSet s = false) (hvalue : m.value = '"' :: t ++ ['"'])
    (ht : Spells t word.toList) (ha : ofWord word = some a)
    (hread : ∀ cs rest, readWord ofWord cs = .ok (a, rest) → f.read s cs = .ok (s', rest)) :
    Reads fields m s s' := by
  refine .field hfind hset fun b rest hb _ => hread _ rest ?_
  rw [hvalue]
  exact readWord_spells ht ha hb rest

/-- What some members make of the record, one after the other. -/
inductive ReadsAll (fields : List (RecordField σ)) : List Member → σ → σ → Prop
  | nil {s : σ} : ReadsAll fields [] s s
  | cons {m : Member} {ms : List Member} {s s' s'' : σ} : Reads fields m s s' →
      ReadsAll fields ms s' s'' → ReadsAll fields (m :: ms) s s''

theorem readMember_append (h : Reads fields m s s') (hb : Blank b) (hb' : Blank b')
    (hrest : Ends rest) :
    readMember fields m.name s (b ++ ':' :: (b' ++ (m.value ++ rest))) = .ok (s', rest) := by
  have hcolon := readColon_append hb (b' ++ (m.value ++ rest))
  cases h with
  | field hfind hset hread =>
    simp [readMember, hfind, hset, hcolon, hread b' rest hb' hrest, bind, Except.bind]
  | other hfind hvalue =>
    simp [readMember, hfind, hcolon, skipValue_written hvalue hb' hrest, bind, Except.bind]

theorem Members.ends (h : Members false ms cs) (rest : List Char) : Ends (cs ++ rest) := by
  cases h with
  | close hb =>
    rw [List.append_assoc]
    refine .of_blank hb ?_
    rintro c ⟨⟩
    decide
  | next hb =>
    simp only [List.append_assoc, List.cons_append]
    refine .of_blank hb ?_
    rintro c ⟨⟩
    decide

/-- Every member takes up some of the text, and so does the end of the object. -/
theorem Members.length_lt (h : Members first ms cs) : ms.length < cs.length := by
  induction h with
  | close => simp
  | first _ htext _ ih =>
    cases htext
    simp only [List.length_append, List.length_cons]
    omega
  | next _ _ htext _ ih =>
    simp only [List.length_append, List.length_cons]
    omega

theorem readNameStart_comma (hb : Blank b) (rest : List Char) :
    readNameStart false (',' :: (b ++ '"' :: rest)) = .ok rest := by
  have hquote := skipBlank_append_cons (c := '"') hb (by decide) rest
  simp [readNameStart, hquote]

/-- A member is read from after its opening quote, and then the others. -/
theorem readMembers_member {text tail t : List Char} {c : Char} (htext : skipBlank text = c :: tail)
    (hc : c ≠ '\x7d') (hstart : readNameStart first (c :: tail) =
      .ok (t ++ '"' :: (b ++ ':' :: (b' ++ (m.value ++ rest)))))
    (ht : Spells t m.name.toList) (hb : Blank b) (hb' : Blank b') (hrest : Ends rest)
    (hm : Reads fields m s s') :
    readMembers fields (fuel + 1) first s text = readMembers fields fuel false s' rest := by
  have hclose : ¬ c == '\x7d' := mt eq_of_beq hc
  conv_lhs => unfold readMembers
  rw [htext]
  simp only [hclose, hstart, readString_spells ht, String.ofList_toList,
    readMember_append hm hb hb' hrest, bind, Except.bind, Bool.false_eq_true, ↓reduceIte]

/-- The members are read one after the other, up to the end of the object. -/
theorem readMembers_members (h : Members first ms cs) (hreads : ReadsAll fields ms s s')
    (hfuel : ms.length < fuel) (rest : List Char) :
    readMembers fields fuel first s (cs ++ rest) = .ok (s', rest) := by
  induction h generalizing s fuel with
  | @close first b hb =>
    cases hreads
    obtain ⟨fuel, rfl⟩ := Nat.exists_eq_succ_of_ne_zero (Nat.ne_zero_of_lt hfuel)
    have hclose : skipBlank (b ++ ['\x7d'] ++ rest) = '\x7d' :: rest := by
      rw [List.append_assoc]
      exact skipBlank_append_cons hb (by decide) rest
    unfold readMembers
    rw [hclose]
    rfl
  | @first m ms b cs ds hb htext hrest ih =>
    cases hreads with
    | cons hm hms =>
      obtain ⟨fuel, rfl⟩ := Nat.exists_eq_succ_of_ne_zero (Nat.ne_zero_of_lt hfuel)
      obtain ⟨ht, hb₁, hb₂⟩ := htext
      simp only [List.append_assoc, List.cons_append]
      have hquote := skipBlank_append_cons (c := '"') hb (by decide)
      exact (readMembers_member (hquote _) (by decide) rfl ht hb₁ hb₂ (hrest.ends rest) hm).trans
        (ih hms (Nat.lt_of_succ_lt_succ hfuel))
  | @next m ms b b' cs ds hb hb' htext hrest ih =>
    cases hreads with
    | cons hm hms =>
      obtain ⟨fuel, rfl⟩ := Nat.exists_eq_succ_of_ne_zero (Nat.ne_zero_of_lt hfuel)
      obtain ⟨ht, hb₁, hb₂⟩ := htext
      simp only [List.append_assoc, List.cons_append]
      have hcomma := skipBlank_append_cons (c := ',') hb (by decide)
      exact (readMembers_member (hcomma _) (by decide) (readNameStart_comma hb' _) ht hb₁ hb₂
        (hrest.ends rest) hm).trans (ih hms (Nat.lt_of_succ_lt_succ hfuel))

/-- A text of an object is read member by member. -/
theorem parseRecord_object {α : Type} {text : String} (h : ObjectText ms text.toList)
    (hreads : ReadsAll fields ms s s') (finish : σ → Except Fault α) :
    parseRecord fields s finish text = finish s' := by
  generalize htext : text.toList = cs at h
  cases h with
  | @mk b cs b' hb hms hb' =>
    have hskip : skipBlank (b ++ '\x7b' :: cs ++ b') = '\x7b' :: (cs ++ b') := by
      rw [List.append_assoc]
      exact skipBlank_append_cons hb (by decide) _
    have hlength : ms.length < (cs ++ b').length + 1 := by
      have hlt := hms.length_lt
      rw [List.length_append]
      omega
    have hread := readMembers_members hms hreads hlength b'
    have hrecord : readRecord fields s text.toList = .ok (s', b') := by
      unfold readRecord
      rw [htext, hskip]
      exact hread
    unfold parseRecord
    rw [hrecord]
    simp only [bind, Except.bind, hb'.skipBlank_eq, List.isEmpty_nil, ↓reduceIte]
    cases finish s' <;> rfl

end Records

end EntityWorld.JsonText
