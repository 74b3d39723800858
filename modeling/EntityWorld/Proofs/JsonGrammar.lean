/-
# What a JSON text is

The grammar of JSON as relations on texts, without a reader: which texts are blank,
which spell a string or a number, which are values (`Written`). Values nest to any depth.

The readers take from a longer text what the grammar gives, and leave the rest.
For a number this needs that the rest does not go on with it (`Ends`); after all
other parts the rest may be anything. Passing over a value, `skip` comes out of each
bracket as it went in (`skip_written`).

Key definitions: `Quoted`, `Spells`, `NumberText.Spelt`, `Written`.
Key theorems: `readString_spells`, `scanNumber_spelt`, `skip_written`, `skipValue_written`.
-/
import EntityWorld.JsonText.Skip
import Mathlib.Data.List.DropRight
import Mathlib.Tactic

namespace EntityWorld.JsonText

/-! ### Blanks -/

/-- Blanks, or nothing. -/
def Blank (cs : List Char) : Prop := ∀ c ∈ cs, c = ' ' ∨ c = '\n' ∨ c = '\t' ∨ c = '\r'

section Blanks

variable {b cs rest : List Char} {c : Char}

theorem isBlank_iff : isBlank c ↔ c = ' ' ∨ c = '\n' ∨ c = '\t' ∨ c = '\r' := by
  simp [isBlank, or_assoc]

theorem Blank.nil : Blank [] := by simp [Blank]

theorem skipBlank_append (hb : Blank b) (cs : List Char) : skipBlank (b ++ cs) = skipBlank cs := by
  unfold skipBlank
  rw [List.dropWhile_append, List.dropWhile_eq_nil_iff.mpr fun c hc => isBlank_iff.mpr (hb c hc)]
  rfl

theorem skipBlank_cons (hc : ¬ isBlank c) (cs : List Char) : skipBlank (c :: cs) = c :: cs :=
  List.dropWhile_cons_of_neg hc

theorem skipBlank_append_cons (hb : Blank b) (hc : ¬ isBlank c) (rest : List Char) :
    skipBlank (b ++ c :: rest) = c :: rest := by
  rw [skipBlank_append hb, skipBlank_cons hc]

theorem skipBlank_skipBlank (cs : List Char) : skipBlank (skipBlank cs) = skipBlank cs :=
  List.dropWhile_idempotent _ cs

theorem Blank.skipBlank_eq (hb : Blank b) : skipBlank b = [] :=
  List.dropWhile_eq_nil_iff.mpr fun c hc => isBlank_iff.mpr (hb c hc)

end Blanks

/-! ### Strings -/

/-- A hexadecimal digit and its value. Capitals will do as well. -/
def HexDigit (c : Char) (v : Nat) : Prop :=
  v < 16 ∧ (c = Nat.digitChar v ∨ c = (Nat.digitChar v).toUpper)

/-- Four hexadecimal digits and the number that they are. -/
inductive HexWord : List Char → Nat → Prop
  | mk {a b c d : Char} {u v x y : Nat} : HexDigit a u → HexDigit b v → HexDigit c x →
      HexDigit d y → HexWord [a, b, c, d] (((u * 16 + v) * 16 + x) * 16 + y)

/-- An escape of one letter, and the character that it is for. -/
def Escape (c d : Char) : Prop :=
  (c, d) ∈ [('"', '"'), ('\\', '\\'), ('/', '/'), ('b', '\x08'), ('f', '\x0c'), ('n', '\n'),
    ('r', '\r'), ('t', '\t')]

/-- A character that stands for itself in a string. -/
def Plain (c : Char) : Prop := 0x20 ≤ c.toNat ∧ c ≠ '"' ∧ c ≠ '\\'

/-- What may stand between quotes. -/
inductive Quoted : List Char → Prop
  | nil : Quoted []
  | plain {c : Char} {cs : List Char} : Plain c → Quoted cs → Quoted (c :: cs)
  | escape {c d : Char} {cs : List Char} : Escape c d → Quoted cs → Quoted ('\\' :: c :: cs)
  | unicode {w cs : List Char} {n : Nat} : HexWord w n → Quoted cs →
      Quoted ('\\' :: 'u' :: w ++ cs)

/-- What stands between the quotes, and the string that it is for. A character past the first
65536 may be given by the halves of its pair. -/
inductive Spells : List Char → List Char → Prop
  | nil : Spells [] []
  | plain {c : Char} {cs s : List Char} : Plain c → Spells cs s → Spells (c :: cs) (c :: s)
  | escape {c d : Char} {cs s : List Char} : Escape c d → Spells cs s →
      Spells ('\\' :: c :: cs) (d :: s)
  | unicode {w cs s : List Char} {c : Char} : HexWord w c.toNat → Spells cs s →
      Spells ('\\' :: 'u' :: w ++ cs) (c :: s)
  | pair {w w' cs s : List Char} {c : Char} : 0x10000 ≤ c.toNat →
      HexWord w (0xd800 + (c.toNat - 0x10000) / 0x400) →
      HexWord w' (0xdc00 + (c.toNat - 0x10000) % 0x400) → Spells cs s →
      Spells ('\\' :: 'u' :: w ++ '\\' :: 'u' :: w' ++ cs) (c :: s)

section Strings

variable {cs s w rest : List Char} {c d : Char} {n v : Nat}

theorem Spells.of_plain (h : ∀ c ∈ cs, Plain c) : Spells cs cs := by
  induction cs with
  | nil => exact .nil
  | cons c cs ih =>
    exact .plain (h c List.mem_cons_self) (ih fun d hd => h d (List.mem_cons_of_mem c hd))

theorem hexDigit?_eq (h : HexDigit c v) : hexDigit? c = some v := by
  have hall : ∀ v < 16, hexDigit? (Nat.digitChar v) = some v ∧
      hexDigit? (Nat.digitChar v).toUpper = some v := by decide
  obtain ⟨hv, rfl | rfl⟩ := h
  · exact (hall v hv).1
  · exact (hall v hv).2

theorem escaped?_eq (h : Escape c d) : escaped? c = some d ∧ c ≠ 'u' := by
  simp only [Escape, List.mem_cons, Prod.mk.injEq, List.not_mem_nil, or_false] at h
  rcases h with ⟨rfl, rfl⟩ | ⟨rfl, rfl⟩ | ⟨rfl, rfl⟩ | ⟨rfl, rfl⟩ | ⟨rfl, rfl⟩ | ⟨rfl, rfl⟩ |
    ⟨rfl, rfl⟩ | ⟨rfl, rfl⟩ <;> decide

theorem exists_of_hexWord (h : HexWord w n) :
    ∃ a b c d, w = [a, b, c, d] ∧ hexWord? a b c d = some n := by
  cases h with
  | @mk a b c d u v x y ha hb hc hd =>
    refine ⟨a, b, c, d, rfl, ?_⟩
    simp [hexWord?, hexDigit?_eq ha, hexDigit?_eq hb, hexDigit?_eq hc, hexDigit?_eq hd]

theorem skipString_quoted (h : Quoted cs) (rest : List Char) :
    skipString (cs ++ '"' :: rest) = .ok rest := by
  induction h with
  | nil => simp [skipString]
  | plain hc _ ih =>
    obtain ⟨hlow, hquote, hslash⟩ := hc
    simp [skipString, hquote, Nat.not_lt.mpr hlow, ih]
  | escape hc _ ih =>
    obtain ⟨hc, hu⟩ := escaped?_eq hc
    simp [skipString, hc, ih]
  | unicode hw _ ih =>
    obtain ⟨a, b, c, d, rfl, hn⟩ := exists_of_hexWord hw
    simp [skipString, hn, ih]

theorem combine_toNat (c : Char) : combine none c.toNat = .ok (some c, none) := by
  have hvalid : c.toNat < 0xd800 ∨ 0xdfff < c.toNat ∧ c.toNat < 0x110000 := c.valid
  have hlow : ¬ (0xdc00 ≤ c.toNat ∧ c.toNat < 0xe000) := by omega
  have hhigh : ¬ (0xd800 ≤ c.toNat ∧ c.toNat < 0xdc00) := by omega
  simp only [combine, if_neg hlow, if_neg hhigh, Char.ofNat_toNat]

theorem combine_high {q : Nat} (hq : q < 0x400) :
    combine none (0xd800 + q) = .ok (none, some (0xd800 + q)) := by
  have hlow : ¬ (0xdc00 ≤ 0xd800 + q ∧ 0xd800 + q < 0xe000) := by omega
  have hhigh : 0xd800 ≤ 0xd800 + q ∧ 0xd800 + q < 0xdc00 := by omega
  simp only [combine, if_neg hlow, if_pos hhigh]

theorem combine_low {q r : Nat} (hr : r < 0x400) (hc : c.toNat = q * 0x400 + r + 0x10000) :
    combine (some (0xd800 + q)) (0xdc00 + r) = .ok (some c, none) := by
  have hlow : 0xdc00 ≤ 0xdc00 + r ∧ 0xdc00 + r < 0xe000 := by omega
  simp only [combine, if_pos hlow, Nat.add_sub_cancel_left, ← hc, Char.ofNat_toNat]

/-- The halves of a pair, one after the other. -/
theorem combine_pair (hc : 0x10000 ≤ c.toNat) :
    combine none (0xd800 + (c.toNat - 0x10000) / 0x400) =
      .ok (none, some (0xd800 + (c.toNat - 0x10000) / 0x400)) ∧
    combine (some (0xd800 + (c.toNat - 0x10000) / 0x400))
      (0xdc00 + (c.toNat - 0x10000) % 0x400) = .ok (some c, none) := by
  have hvalid : c.toNat < 0xd800 ∨ 0xdfff < c.toNat ∧ c.toNat < 0x110000 := c.valid
  exact ⟨combine_high (by omega), combine_low (Nat.mod_lt _ (by decide)) (by omega)⟩

theorem readString_unicode {high high' : Option Nat} {new : Option Char} (hw : HexWord w n)
    (hn : combine high n = .ok (new, high')) (h : readString high' cs = .ok (s, rest)) :
    readString high ('\\' :: 'u' :: w ++ cs) = .ok (new.toList ++ s, rest) := by
  obtain ⟨x, y, z, u, rfl, hword⟩ := exists_of_hexWord hw
  simp [readString, hword, hn, h, bind, Except.bind]

theorem readString_spells (h : Spells cs s) (rest : List Char) :
    readString none (cs ++ '"' :: rest) = .ok (s, rest) := by
  induction h with
  | nil => simp [readString]
  | plain hc _ ih =>
    obtain ⟨hlow, hquote, hslash⟩ := hc
    simp [readString, hquote, Nat.not_lt.mpr hlow, ih, bind, Except.bind]
  | escape hc _ ih =>
    obtain ⟨hc, hu⟩ := escaped?_eq hc
    simp [readString, hc, ih, bind, Except.bind]
  | unicode hw _ ih =>
    rw [List.append_assoc]
    exact readString_unicode hw (combine_toNat _) ih
  | pair hlow hw hw' _ ih =>
    obtain ⟨hfirst, hsecond⟩ := combine_pair hlow
    have hlast := readString_unicode hw' hsecond ih
    rw [List.append_assoc, List.append_assoc]
    exact readString_unicode hw hfirst hlast

end Strings

/-! ### Numbers -/

/-- Decimal digits, one at least. -/
def Digits (cs : List Char) : Prop := cs ≠ [] ∧ ∀ c ∈ cs, c.isDigit

/-- A sign, or none. -/
inductive Sign : Bool → List Char → Prop
  | none : Sign false []
  | plus : Sign false ['+']
  | minus : Sign true ['-']

/-- The digits after the point, and the point before them. -/
inductive Fraction : List Char → List Char → Prop
  | none : Fraction [] []
  | some {ds : List Char} : Digits ds → Fraction ds ('.' :: ds)

/-- The sign and the digits of an exponent, and its text. -/
inductive Exponent : Option (Bool × List Char) → List Char → Prop
  | none : Exponent none []
  | some {negative : Bool} {c : Char} {sign ds : List Char} : c = 'e' ∨ c = 'E' →
      Sign negative sign → Digits ds → Exponent (some (negative, ds)) (c :: sign ++ ds)

/-- The parts of a number, and its text. A whole part that starts with a zero is that zero. -/
inductive NumberText.Spelt : NumberText → List Char → Prop
  | mk {negative : Bool} {sign whole fraction cs es : List Char}
      {exponent : Option (Bool × List Char)} :
      Sign negative sign → sign ≠ ['+'] → Digits whole → (whole.head? = some '0' → whole = ['0']) →
      Fraction fraction cs → Exponent exponent es →
      Spelt ⟨negative, whole, fraction, exponent⟩ (sign ++ whole ++ cs ++ es)

/-- A text that does not go on with a number before it. -/
def Ends (cs : List Char) : Prop :=
  ∀ c ∈ cs.head?, ¬ c.isDigit ∧ c ≠ '.' ∧ c ≠ 'e' ∧ c ≠ 'E'

section Numbers

variable {cs ds es rest : List Char} {short : Fault} {negative : Bool}

theorem Digits.exists_cons (h : Digits ds) : ∃ c tail, ds = c :: tail ∧ c.isDigit := by
  obtain ⟨hne, hall⟩ := h
  obtain ⟨c, tail, rfl⟩ := List.exists_cons_of_ne_nil hne
  exact ⟨c, tail, rfl, hall c List.mem_cons_self⟩

theorem scanDigits_append (hds : Digits ds) (hrest : ∀ c ∈ rest.head?, ¬ c.isDigit) :
    scanDigits short (ds ++ rest) = .ok (ds, rest) := by
  have htake : rest.takeWhile Char.isDigit = [] ∧ rest.dropWhile Char.isDigit = rest := by
    cases rest with
    | nil => exact ⟨rfl, rfl⟩
    | cons c rest =>
      have hc := hrest c rfl
      exact ⟨List.takeWhile_cons_of_neg hc, List.dropWhile_cons_of_neg hc⟩
  have hsplit : (ds ++ rest).takeWhile Char.isDigit = ds ∧
      (ds ++ rest).dropWhile Char.isDigit = rest := by
    rw [List.takeWhile_append_of_pos hds.2, List.dropWhile_append_of_pos hds.2, htake.1, htake.2,
      List.append_nil]
    exact ⟨rfl, rfl⟩
  obtain ⟨c, tail, rfl, hc⟩ := hds.exists_cons
  unfold scanDigits
  rw [List.cons_append] at hsplit ⊢
  simp only [hc, ↓reduceIte, hsplit]

theorem scanMinus_append {sign : List Char} (h : Sign negative sign) (hplus : sign ≠ ['+'])
    (hds : Digits ds) (rest : List Char) :
    scanMinus (sign ++ (ds ++ rest)) = (negative, ds ++ rest) := by
  obtain ⟨c, tail, rfl, hc⟩ := hds.exists_cons
  cases h with
  | none =>
    have hminus : c ≠ '-' := fun heq => by
      rw [heq] at hc
      cases hc
    simp [scanMinus, hminus]
  | plus => exact (hplus rfl).elim
  | minus => rfl

theorem scanSign_append {sign : List Char} (h : Sign negative sign) (hds : Digits ds)
    (rest : List Char) : scanSign (sign ++ (ds ++ rest)) = (negative, ds ++ rest) := by
  obtain ⟨c, tail, rfl, hc⟩ := hds.exists_cons
  cases h with
  | none =>
    have hsign : c ≠ '+' ∧ c ≠ '-' := by
      constructor <;>
      · rintro rfl
        cases hc
    simp [scanSign, hsign]
  | plus => rfl
  | minus => rfl

theorem scanFraction_append (h : Fraction ds cs)
    (hrest : ∀ c ∈ rest.head?, ¬ c.isDigit ∧ c ≠ '.') :
    scanFraction short (cs ++ rest) = .ok (ds, rest) := by
  cases h with
  | none =>
    unfold scanFraction
    split
    · next tail heq => exact ((hrest '.' (by rw [← List.nil_append rest, heq]; rfl)).2 rfl).elim
    · rfl
  | some hds => exact scanDigits_append hds fun c hc => (hrest c hc).1

theorem scanExponent_append {e : Option (Bool × List Char)} (h : Exponent e es) (hrest : Ends rest) :
    scanExponent short (es ++ rest) = .ok (e, rest) := by
  cases h with
  | none =>
    unfold scanExponent
    cases rest with
    | nil => rfl
    | cons c rest =>
      obtain ⟨-, -, he, hcapital⟩ := hrest c rfl
      simp [he, hcapital]
  | @some negative c sign ds hc hsign hds =>
    have hsign := scanSign_append hsign hds rest
    have hdigits : scanDigits short (ds ++ rest) = .ok (ds, rest) :=
      scanDigits_append hds fun c hc => (hrest c hc).1
    rw [List.append_assoc] at *
    simp [scanExponent, hc, hsign, hdigits, bind, Except.bind]

theorem scanNumber_spelt {n : NumberText} (h : n.Spelt cs) (hrest : Ends rest) :
    scanNumber short (cs ++ rest) = .ok (n, rest) := by
  cases h with
  | @mk negative sign whole fraction fs es exponent hsign hplus hwhole hzero hfraction hexponent =>
    -- what comes after the whole part and after the fraction goes on with neither
    have hafter : ∀ c ∈ (es ++ rest).head?, ¬ c.isDigit ∧ c ≠ '.' := by
      cases hexponent with
      | none => exact fun c hc => ⟨(hrest c hc).1, (hrest c hc).2.1⟩
      | some hc _ _ =>
        rintro c ⟨⟩
        rcases hc with rfl | rfl <;> decide
    have hpoint : ∀ c ∈ (fs ++ (es ++ rest)).head?, ¬ c.isDigit := by
      cases hfraction with
      | none => exact fun c hc => (hafter c hc).1
      | some _ =>
        rintro c ⟨⟩
        decide
    have hlead : ¬ (whole.head? = some '0' ∧ 1 < whole.length) := by
      rintro ⟨hhead, hlength⟩
      rw [hzero hhead] at hlength
      exact Nat.lt_irrefl _ hlength
    rw [List.append_assoc, List.append_assoc, List.append_assoc]
    unfold scanNumber
    rw [scanMinus_append hsign hplus hwhole]
    simp [bind, Except.bind, scanDigits_append hwhole hpoint, scanFraction_append hfraction hafter,
      scanExponent_append hexponent hrest, hlead]

end Numbers

/-! ### Values -/

/-- The values without brackets. -/
inductive Scalar : List Char → Prop
  | word {cs : List Char} : cs ∈ ["null".toList, "true".toList, "false".toList] → Scalar cs
  | number {n : NumberText} {cs : List Char} : n.Spelt cs → Scalar cs
  | string {cs : List Char} : Quoted cs → Scalar ('"' :: cs ++ ['"'])

/-- The character that opens a bracket. -/
def opening : Bracket → Char
  | .array => '['
  | .object => '\x7b'

/-- The parts of a text: values, what a bracket lists, and the rest of a bracket after that. -/
inductive Part where
  | value
  | item (k : Bracket)
  | rest (k : Bracket)

/-- The texts of values, of the items of a bracket, which are members in an object, with the
blanks around them, and of what comes after an item to the end of the bracket. -/
inductive Written : Part → List Char → Prop
  | scalar {cs : List Char} : Scalar cs → Written .value cs
  | empty {b : List Char} (k : Bracket) : Blank b → Written .value (opening k :: b ++ [closing k])
  | bracket {k : Bracket} {cs ds : List Char} : Written (.item k) cs → Written (.rest k) ds →
      Written .value (opening k :: cs ++ ds)
  | element {b b' v : List Char} : Blank b → Written .value v → Blank b' →
      Written (.item .array) (b ++ v ++ b')
  | member {b₁ b₂ b₃ b₄ n v : List Char} : Blank b₁ → Quoted n → Blank b₂ → Blank b₃ →
      Written .value v → Blank b₄ →
      Written (.item .object) (b₁ ++ '"' :: n ++ '"' :: b₂ ++ ':' :: b₃ ++ v ++ b₄)
  | close (k : Bracket) : Written (.rest k) [closing k]
  | next {k : Bracket} {cs ds : List Char} : Written (.item k) cs → Written (.rest k) ds →
      Written (.rest k) (',' :: cs ++ ds)

section Skip

variable {b cs ds rest : List Char} {c : Char} {k : Bracket} {outer : List Bracket}

/-- Where an item of a bracket starts. -/
def start : Bracket → Place
  | .array => .value
  | .object => .name

/-! One step of the reader, by the first character that is not blank. -/

theorem skip_closed_cons (h : skipBlank cs = c :: rest) :
    skip .closed (k :: outer) cs =
      if c == ',' then skip (start k) (k :: outer) rest
      else if c == closing k then skip .closed outer rest
      else .error .malformed := by
  conv_lhs => rw [skip]
  split
  · next h' => cases h.symm.trans h'
  · next h' =>
    cases h.symm.trans h'
    cases k <;> rfl

theorem skip_opened_cons (h : skipBlank cs = c :: rest) :
    skip .opened (k :: outer) cs =
      if c == closing k then skip .closed outer rest
      else skip (start k) (k :: outer) (c :: rest) := by
  conv_lhs => rw [skip]
  split
  · next h' => cases h.symm.trans h'
  · next h' =>
    cases h.symm.trans h'
    cases k <;> rfl

theorem skip_value_opening (h : skipBlank cs = opening k :: rest) :
    skip .value outer cs = skip .opened (k :: outer) rest := by
  conv_lhs => rw [skip]
  split
  · next h' => cases h.symm.trans h'
  · next h' =>
    cases h.symm.trans h'
    cases k <;> rfl

theorem skip_value_scalar (h : skipBlank cs = c :: ds) (hc : c ≠ '[' ∧ c ≠ '\x7b')
    (hscalar : skipScalar (c :: ds) = .ok rest) :
    skip .value outer cs = skip .closed outer rest := by
  conv_lhs => rw [skip]
  split
  · next h' => cases h.symm.trans h'
  · next h' =>
    cases h.symm.trans h'
    rw [if_neg (mt eq_of_beq hc.1), if_neg (mt eq_of_beq hc.2)]
    split
    · next h' => cases hscalar.symm.trans h'
    · next h' => cases hscalar.symm.trans h'; rfl

theorem skip_name_cons (h : skipBlank cs = '"' :: ds) {ds' : List Char}
    (hname : skipString ds = .ok ds') (hcolon : readColon ds' = .ok rest) :
    skip .name outer cs = skip .value outer rest := by
  conv_lhs => rw [skip]
  split
  · next h' => cases h.symm.trans h'
  · next h' =>
    cases h.symm.trans h'
    rw [if_pos (beq_self_eq_true '"')]
    split
    · next h' => cases hname.symm.trans h'
    · next h' =>
      cases hname.symm.trans h'
      split
      · next h' => cases hcolon.symm.trans h'
      · next h' => cases hcolon.symm.trans h'; rfl

theorem readColon_append (hb : Blank b) (rest : List Char) : readColon (b ++ ':' :: rest) = .ok rest := by
  have h := skipBlank_append_cons (c := ':') hb (by decide) rest
  simp [readColon, h]

theorem literal_append (es rest : List Char) : literal es (es ++ rest) = .ok rest := by
  induction es with
  | nil => simp [literal]
  | cons e es ih => simp [literal, ih]

/-- A number starts with its sign or with a digit, and so with nothing else. -/
theorem NumberText.Spelt.exists_cons {n : NumberText} (h : n.Spelt cs) :
    ∃ c tail, cs = c :: tail ∧ (c == '-' || c.isDigit) = true ∧
      ∀ d : Char, (d == '-' || d.isDigit) = false → c ≠ d := by
  have hne : ∀ c : Char, (c == '-' || c.isDigit) = true →
      ∀ d : Char, (d == '-' || d.isDigit) = false → c ≠ d := by
    rintro c hc d hd rfl
    cases hc.symm.trans hd
  cases h with
  | mk hsign hplus hwhole _ _ _ =>
    obtain ⟨c, tail, rfl, hc⟩ := hwhole.exists_cons
    have hc : (c == '-' || c.isDigit) = true := by rw [hc, Bool.or_true]
    cases hsign with
    | none => exact ⟨c, _, rfl, hc, hne c hc⟩
    | plus => exact (hplus rfl).elim
    | minus => exact ⟨'-', _, rfl, rfl, hne '-' rfl⟩

theorem Scalar.exists_cons (h : Scalar cs) :
    ∃ c tail, cs = c :: tail ∧ ¬ isBlank c ∧ (c ≠ '[' ∧ c ≠ '\x7b') ∧ c ≠ ']' ∧ c ≠ '\x7d' := by
  cases h with
  | word h =>
    simp only [List.mem_cons, List.not_mem_nil, or_false] at h
    rcases h with rfl | rfl | rfl
    · exact ⟨'n', _, rfl, by decide⟩
    · exact ⟨'t', _, rfl, by decide⟩
    · exact ⟨'f', _, rfl, by decide⟩
  | number h =>
    obtain ⟨c, tail, hcs, -, hne⟩ := h.exists_cons
    refine ⟨c, tail, hcs, fun hblank => ?_, ⟨hne _ rfl, hne _ rfl⟩, hne _ rfl, hne _ rfl⟩
    rcases isBlank_iff.mp hblank with h | h | h | h <;> exact hne _ rfl h
  | string => exact ⟨'"', _, rfl, by decide⟩

theorem skipScalar_append (h : Scalar cs) (hrest : Ends rest) :
    skipScalar (cs ++ rest) = .ok rest := by
  cases h with
  | word h =>
    simp only [List.mem_cons, List.not_mem_nil, or_false] at h
    rcases h with rfl | rfl | rfl
    · exact literal_append "ull".toList rest
    · exact literal_append "rue".toList rest
    · exact literal_append "alse".toList rest
  | number h =>
    have hscan : scanNumber .malformed (cs ++ rest) = .ok (_, rest) := scanNumber_spelt h hrest
    obtain ⟨c, tail, rfl, hc, hne⟩ := h.exists_cons
    have hother : c ≠ 'n' ∧ c ≠ 't' ∧ c ≠ 'f' ∧ c ≠ '"' := ⟨hne _ rfl, hne _ rfl, hne _ rfl, hne _ rfl⟩
    rw [List.cons_append] at hscan ⊢
    simp [skipScalar, hother, hc, hscan, Except.map]
  | string h =>
    have hskip := skipString_quoted h rest
    simp [skipScalar, hskip]

/-! ### Values are passed over -/

theorem Ends.of_blank (hb : Blank b) (h : Ends rest) : Ends (b ++ rest) := by
  cases b with
  | nil => exact h
  | cons c b =>
    rintro d ⟨⟩
    rcases hb c List.mem_cons_self with rfl | rfl | rfl | rfl <;> decide

theorem Written.ends (h : Written (.rest k) cs) (rest : List Char) : Ends (cs ++ rest) := by
  cases h with
  | close =>
    rintro d ⟨⟩
    cases k <;> decide
  | next =>
    rintro d ⟨⟩
    decide

/-- A value starts with no blank, and not with the end of a bracket. -/
theorem Written.exists_cons (h : Written .value cs) :
    ∃ c tail, cs = c :: tail ∧ ¬ isBlank c ∧ c ≠ ']' ∧ c ≠ '\x7d' := by
  cases h with
  | scalar h =>
    obtain ⟨c, tail, hcs, hblank, -, hclosing⟩ := h.exists_cons
    exact ⟨c, tail, hcs, hblank, hclosing⟩
  | empty k =>
    refine ⟨opening k, _, rfl, ?_⟩
    cases k <;> decide
  | @bracket k =>
    refine ⟨opening k, _, rfl, ?_⟩
    cases k <;> decide

/-- So does an item, after its blanks. -/
theorem Written.skipBlank_item (h : Written (.item k) cs) (rest : List Char) :
    ∃ c tail, skipBlank (cs ++ rest) = c :: tail ∧ ¬ isBlank c ∧ c ≠ closing k := by
  cases h with
  | @element b b' v hb hv _ =>
    obtain ⟨c, tail, rfl, hblank, hclosing, -⟩ := hv.exists_cons
    refine ⟨c, tail ++ (b' ++ rest), ?_, hblank, hclosing⟩
    rw [List.append_assoc, List.append_assoc]
    exact skipBlank_append_cons hb hblank _
  | @member b₁ b₂ b₃ b₄ n v hb₁ =>
    refine ⟨'"', n ++ '"' :: b₂ ++ ':' :: b₃ ++ v ++ b₄ ++ rest, ?_, by decide, by decide⟩
    simp only [List.append_assoc, List.cons_append]
    exact skipBlank_append_cons hb₁ (by decide) _

/-- What it is to pass over a part. The reader may have been through the blanks before it. -/
def Passed : Part → List Char → Prop
  | .value, cs => ∀ outer rest text, Ends rest → skipBlank text = cs ++ rest →
      skip .value outer text = skip .closed outer rest
  | .item k, cs => ∀ outer rest text, Ends rest → skipBlank text = skipBlank (cs ++ rest) →
      ∃ b, Blank b ∧ skip (start k) (k :: outer) text = skip .closed (k :: outer) (b ++ rest)
  | .rest k, cs => ∀ b outer rest, Blank b →
      skip .closed (k :: outer) (b ++ (cs ++ rest)) = skip .closed outer rest

theorem skip_written {part : Part} (h : Written part cs) : Passed part cs := by
  induction h with
  | @scalar cs h =>
    intro outer rest text hrest htext
    have hskip := skipScalar_append h hrest
    obtain ⟨c, tail, rfl, -, hopening, -⟩ := h.exists_cons
    exact skip_value_scalar htext hopening hskip
  | @empty b k hb =>
    intro outer rest text _ htext
    have hclose : skipBlank (b ++ ([closing k] ++ rest)) = closing k :: rest :=
      skipBlank_append_cons hb (by cases k <;> decide) rest
    rw [List.append_assoc, List.cons_append] at htext
    rw [skip_value_opening htext, skip_opened_cons hclose, if_pos (beq_self_eq_true _)]
  | @bracket k cs ds hitem hrest ihitem ihrest =>
    intro outer rest text _ htext
    obtain ⟨c, tail, hfirst, hblank, hclosing⟩ := hitem.skipBlank_item (ds ++ rest)
    have hagain : skipBlank (c :: tail) = skipBlank (cs ++ (ds ++ rest)) := by
      rw [← hfirst, skipBlank_skipBlank]
    obtain ⟨b, hb, hskip⟩ := ihitem outer (ds ++ rest) (c :: tail) (hrest.ends rest) hagain
    rw [List.cons_append, List.cons_append, List.append_assoc] at htext
    rw [skip_value_opening htext, skip_opened_cons hfirst, if_neg (mt eq_of_beq hclosing), hskip,
      ihrest b outer rest hb]
  | @element b b' v hb hv hb' ih =>
    intro outer rest text hrest htext
    refine ⟨b', hb', ih (.array :: outer) (b' ++ rest) text (hrest.of_blank hb') ?_⟩
    obtain ⟨c, tail, rfl, hblank, -⟩ := hv.exists_cons
    rw [htext, List.append_assoc, List.append_assoc]
    exact skipBlank_append_cons hb hblank _
  | @member b₁ b₂ b₃ b₄ n v hb₁ hn hb₂ hb₃ hv hb₄ ih =>
    intro outer rest text hrest htext
    refine ⟨b₄, hb₄, ?_⟩
    have htext : skipBlank text = '"' :: (n ++ '"' :: (b₂ ++ ':' :: (b₃ ++ (v ++ (b₄ ++ rest))))) := by
      rw [htext]
      simp only [List.append_assoc, List.cons_append]
      exact skipBlank_append_cons hb₁ (by decide) _
    rw [start, skip_name_cons htext (skipString_quoted hn _) (readColon_append hb₂ _)]
    refine ih _ _ _ (hrest.of_blank hb₄) ?_
    obtain ⟨c, tail, rfl, hblank, -⟩ := hv.exists_cons
    exact skipBlank_append_cons hb₃ hblank _
  | close k =>
    intro b outer rest hb
    have hclose : skipBlank (b ++ ([closing k] ++ rest)) = closing k :: rest :=
      skipBlank_append_cons hb (by cases k <;> decide) rest
    have hcomma : ¬ closing k == ',' := by cases k <;> decide
    rw [skip_closed_cons hclose, if_neg hcomma, if_pos (beq_self_eq_true _)]
  | @next k cs ds hitem hrest ihitem ihrest =>
    intro b outer rest hb
    have hnext : skipBlank (b ++ (',' :: cs ++ ds ++ rest)) = ',' :: (cs ++ (ds ++ rest)) := by
      rw [List.append_assoc, List.cons_append]
      exact skipBlank_append_cons hb (by decide) _
    obtain ⟨b', hb', hskip⟩ := ihitem outer (ds ++ rest) _ (hrest.ends rest) rfl
    rw [skip_closed_cons hnext, if_pos (beq_self_eq_true _), hskip, ihrest b' outer rest hb']

/-- A value is passed over, with the blanks before it, and nothing else. -/
theorem skipValue_written {v : List Char} (hv : Written .value v) (hb : Blank b)
    (hrest : Ends rest) : skipValue (b ++ (v ++ rest)) = .ok rest := by
  have htext : skipBlank (b ++ (v ++ rest)) = v ++ rest := by
    obtain ⟨c, tail, rfl, hblank, -⟩ := hv.exists_cons
    exact skipBlank_append_cons hb hblank _
  unfold skipValue
  rw [skip_written hv [] rest _ hrest htext, skip]

end Skip

end EntityWorld.JsonText
