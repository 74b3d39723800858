/-
# Handles in transport

A handle travels in four forms: as one word, as a JSON object, as a message, and as the
text that is shown of it. The first two are read back, and the word is any word at all.
Of all of them it holds that no two handles share a form.

In the shown text nothing sets off the numbers but the characters after them. They are
told apart since none of those is a digit (`repr_append_inj`).

Key definitions: `Handle.members`, `Handle.toItem`.
Key theorems: `Handle.ofBits_toBits`, `Handle.toBits_ofBits`, `Handle.ofJson_object`,
`Handle.display_injective`, `Handle.survives_transport`.
-/
import EntityWorld.JsonText.Handle
import EntityWorld.Proofs.JsonRecords
import EntityWorld.Proofs.Message
import Mathlib.Tactic

namespace EntityWorld

open JsonText
open Pack (Item)

namespace Handle

/-! ### Words -/

theorem toNat_toBits (e : Handle) :
    e.toBits.toNat = e.generation.toNat * 2 ^ 32 + e.index.toNat := by
  have hindex := e.index.toNat_lt
  have hgeneration := e.generation.toNat_lt
  have hword : e.generation.toNat <<< 32 < 2 ^ 64 := by
    rw [Nat.shiftLeft_eq]
    omega
  have hshift : (e.generation.toUInt64 <<< 32).toNat = e.generation.toNat <<< 32 := by
    rw [UInt64.toNat_shiftLeft, UInt32.toNat_toUInt64]
    exact Nat.mod_eq_of_lt hword
  rw [toBits, UInt64.toNat_or, hshift, UInt32.toNat_toUInt64,
    ← Nat.shiftLeft_add_eq_or_of_lt hindex, Nat.shiftLeft_eq]

theorem toNat_index_ofBits (b : UInt64) : (ofBits b).index.toNat = b.toNat % 2 ^ 32 :=
  UInt64.toNat_toUInt32 b

theorem toNat_generation_ofBits (b : UInt64) : (ofBits b).generation.toNat = b.toNat / 2 ^ 32 := by
  have hb := b.toNat_lt
  have hshift : (b >>> 32).toNat = b.toNat / 2 ^ 32 := by
    rw [UInt64.toNat_shiftRight]
    exact Nat.shiftRight_eq_div_pow _ _
  rw [ofBits, UInt64.toNat_toUInt32, hshift]
  omega

theorem ofBits_toBits (e : Handle) : ofBits e.toBits = e := by
  have hindex := e.index.toNat_lt
  have hslot : (ofBits e.toBits).index = e.index := by
    rw [← UInt32.toNat_inj, toNat_index_ofBits, toNat_toBits]
    omega
  have hgeneration : (ofBits e.toBits).generation = e.generation := by
    rw [← UInt32.toNat_inj, toNat_generation_ofBits, toNat_toBits]
    omega
  exact congrArg₂ Handle.mk hslot hgeneration

theorem toBits_ofBits (b : UInt64) : (ofBits b).toBits = b := by
  rw [← UInt64.toNat_inj, toNat_toBits, toNat_index_ofBits, toNat_generation_ofBits]
  omega

/-! ### JSON -/

/-- The fields of a handle, with their values in decimal. -/
def members (e : Handle) : List Member :=
  [⟨"index", e.index.toNat.repr.toList⟩, ⟨"generation", e.generation.toNat.repr.toList⟩]

/-- The slot is read if it has not been given yet. -/
theorem reads_index (e : Handle) (generation : Option UInt32) :
    Reads jsonFields ⟨"index", e.index.toNat.repr.toList⟩ ⟨none, generation⟩
      ⟨some e.index, generation⟩ := by
  refine .natural (f := jsonFields[0]) rfl rfl rfl e.index.toNat_lt_size fun cs rest h => ?_
  simp [jsonFields, h, bind, Except.bind]

/-- So is the generation. -/
theorem reads_generation (e : Handle) (index : Option UInt32) :
    Reads jsonFields ⟨"generation", e.generation.toNat.repr.toList⟩ ⟨index, none⟩
      ⟨index, some e.generation⟩ := by
  refine .natural (f := jsonFields[1]) rfl rfl rfl e.generation.toNat_lt_size fun cs rest h => ?_
  simp [jsonFields, h, bind, Except.bind]

/-- The fields of a handle make the handle, whichever comes first. -/
theorem readsAll_members {e : Handle} {ms : List Member} (h : ms.Perm e.members) :
    ReadsAll jsonFields ms {} ⟨some e.index, some e.generation⟩ := by
  rcases List.perm_pair.mp h with rfl | rfl
  · exact .cons (reads_index e none) (.cons (reads_generation e _) .nil)
  · exact .cons (reads_generation e none) (.cons (reads_index e _) .nil)

/-- An object of the fields of a handle stands for the handle. -/
theorem ofJson_object {e : Handle} {ms : List Member} {text : String} (h : ms.Perm e.members)
    (htext : ObjectText ms text.toList) : ofJson text = .ok e :=
  parseRecord_object htext (readsAll_members h) Draft.finish

theorem plain_members {e : Handle} {m : Member} (h : m ∈ e.members) :
    ∀ c ∈ m.name.toList, Plain c := by
  simp only [members, List.mem_cons, List.not_mem_nil, or_false] at h
  rcases h with rfl | rfl <;> simp [Plain]

theorem ofJson_toJson (e : Handle) : ofJson e.toJson = .ok e := by
  have htext := objectText_compact fun m hm => plain_members (e := e) hm
  refine ofJson_object (.refl _) ?_
  unfold toJson members
  simpa [Member.compact] using htext

theorem ofJson_toJson_swapped (e : Handle) :
    ofJson ("\x7b\"generation\":" ++ e.generation.toNat.repr ++ ",\"index\":" ++
      e.index.toNat.repr ++ "\x7d") = .ok e := by
  have hswap : [⟨"generation", e.generation.toNat.repr.toList⟩,
      ⟨"index", e.index.toNat.repr.toList⟩].Perm e.members := .swap _ _ []
  have htext := objectText_compact fun m hm => plain_members (e := e) (hswap.subset hm)
  refine ofJson_object hswap ?_
  simpa [Member.compact] using htext

theorem toJson_injective : Function.Injective toJson := by
  intro e e' h
  have hread := ofJson_toJson e
  rw [h, ofJson_toJson e'] at hread
  exact (Except.ok.inj hread).symm

/-! ### Shown text -/

/-- A number in decimal ends where the digits do. -/
theorem repr_append_inj {n m : Nat} {cs ds : List Char} (hcs : ∀ c ∈ cs.head?, ¬ c.isDigit)
    (hds : ∀ d ∈ ds.head?, ¬ d.isDigit) (h : n.repr.toList ++ cs = m.repr.toList ++ ds) :
    n = m ∧ cs = ds := by
  have hn : scanDigits .truncated (n.repr.toList ++ cs) = .ok (n.repr.toList, cs) :=
    scanDigits_append (digits_repr n) hcs
  have hm : scanDigits .truncated (m.repr.toList ++ ds) = .ok (m.repr.toList, ds) :=
    scanDigits_append (digits_repr m) hds
  rw [h, hm] at hn
  obtain ⟨hdigits, hrest⟩ := Prod.mk.inj (Except.ok.inj hn)
  rw [Nat.toList_repr, Nat.toList_repr] at hdigits
  refine ⟨?_, hrest.symm⟩
  calc n = Nat.ofDigitChars 10 (Nat.toDigits 10 n) 0 := Nat.ofDigitChars_ten_toDigits.symm
    _ = Nat.ofDigitChars 10 (Nat.toDigits 10 m) 0 := by rw [hdigits]
    _ = m := Nat.ofDigitChars_ten_toDigits

theorem toList_display (e : Handle) : e.display.toList =
    "Entity(".toList ++ (e.index.toNat.repr.toList ++
      'v' :: (e.generation.toNat.repr.toList ++ [')'])) := by
  simp [display]

theorem display_injective : Function.Injective display := by
  intro e e' h
  have htext := congrArg String.toList h
  rw [toList_display, toList_display, List.append_cancel_left_eq] at htext
  -- no digit comes after either number
  obtain ⟨hindex, htail⟩ := repr_append_inj (by simp) (by simp) htext
  obtain ⟨hgeneration, -⟩ := repr_append_inj (by simp) (by simp) (List.cons.inj htail).2
  exact congrArg₂ Handle.mk (UInt32.toNat_inj.mp hindex) (UInt32.toNat_inj.mp hgeneration)

/-! ### Messages -/

/-- The value that a handle is written as. -/
def toItem (e : Handle) : Item := .list [.natural e.index.toNat, .natural e.generation.toNat]

theorem reads_toPack {depth : Nat} (e : Handle) : Pack.Reads (depth + 1) e.toPack e.toItem := by
  have hword : ∀ n : UInt32, Pack.Reads depth (Pack.natural n.toNat) (.natural n.toNat) := by
    intro n
    have hn := n.toNat_lt
    exact Pack.reads_natural (by omega)
  exact Pack.reads_list (.cons (hword e.index) (.cons (hword e.generation) .nil)) (by simp)

theorem toItem_injective : Function.Injective toItem := by
  intro e e' h
  simp only [toItem, Item.list.injEq, List.cons.injEq, Item.natural.injEq, and_true] at h
  exact congrArg₂ Handle.mk (UInt32.toNat_inj.mp h.1) (UInt32.toNat_inj.mp h.2)

theorem toPack_injective : Function.Injective toPack := by
  intro e e' h
  have hread : Pack.readItem 1 (e.toPack ++ []) = some (e.toItem, []) := reads_toPack e []
  rw [h, reads_toPack e' []] at hread
  exact toItem_injective (congrArg Prod.fst (Option.some.inj hread)).symm

/-! ### All forms -/

/-- **Handles survive transport.** Every handle comes back from its word, and every word is
that of the handle read from it. From a JSON object of its two fields the handle is read in
either order, with any blanks and however the names are spelled, and so from both compact
texts. No two handles have a JSON text, a shown text or a message in common. -/
theorem survives_transport :
    (∀ e, ofBits (toBits e) = e) ∧ (∀ b, toBits (ofBits b) = b) ∧
    (∀ (e : Handle) ms text, ms.Perm e.members → ObjectText ms text.toList →
      ofJson text = .ok e) ∧
    (∀ e, ofJson (toJson e) = .ok e) ∧
    (∀ e : Handle, ofJson ("\x7b\"generation\":" ++ e.generation.toNat.repr ++ ",\"index\":" ++
      e.index.toNat.repr ++ "\x7d") = .ok e) ∧
    Function.Injective toJson ∧ Function.Injective display ∧ Function.Injective toPack :=
  ⟨ofBits_toBits, toBits_ofBits, fun _ _ _ => ofJson_object, ofJson_toJson,
    ofJson_toJson_swapped, toJson_injective, display_injective, toPack_injective⟩

/-- The largest generation stands first, with blanks about it, and the name of the slot is
spelled with an escape. -/
theorem survives_transport_spelled :
    ofJson "\x7b\"generation\": 4294967295 ,\"\\u0069ndex\":10\x7d" = .ok ⟨10, 0xffffffff⟩ := by
  let e : Handle := ⟨10, 0xffffffff⟩
  let generation : Member := ⟨"generation", e.generation.toNat.repr.toList⟩
  let index : Member := ⟨"index", e.index.toNat.repr.toList⟩
  have hspace : Blank [' '] := by simp [Blank]
  have hletter : HexWord ['0', '0', '6', '9'] 'i'.toNat :=
    .mk (u := 0) (v := 0) (x := 6) (y := 9) ⟨by decide, .inl rfl⟩ ⟨by decide, .inl rfl⟩
      ⟨by decide, .inl rfl⟩ ⟨by decide, .inl rfl⟩
  have hletters : Spells "ndex".toList "ndex".toList := .of_plain (by simp [Plain])
  have hname : Spells "\\u0069ndex".toList index.name.toList := by
    simpa [index] using Spells.unicode hletter hletters
  have hgeneration : generation.Text _ :=
    .mk (.of_plain (by simp [generation, Plain])) Blank.nil hspace
  have hindex : index.Text _ := .mk hname Blank.nil Blank.nil
  have htext : ObjectText [generation, index]
      "\x7b\"generation\": 4294967295 ,\"\\u0069ndex\":10\x7d".toList := by
    have h := ObjectText.mk .nil
      (.first .nil hgeneration (.next hspace .nil hindex (.close .nil))) .nil
    have hten : Nat.toDigits 10 e.index.toNat = "10".toList := by decide
    have hlargest : Nat.toDigits 10 e.generation.toNat = "4294967295".toList := by decide
    simpa [generation, index, hten, hlargest] using h
  exact survives_transport.2.2.1 e _ _ (List.Perm.swap _ _ []) htext

end Handle
end EntityWorld
