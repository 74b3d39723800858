/-
# Names one byte apart

Each step of the hash can be undone: a byte is mixed in by exclusive or, and the prime is
odd, so it has an inverse among words (`TypeTag.prime_mul_unprime`). Whatever comes after,
two states that differ are still different at the end (`TypeTag.foldl_absorb_injective`),
and two bytes that differ make two such states. So names that differ in a single byte,
wherever it is, have different tags.

Kinds with such names keep out of each other's way (`World.KeptApart`). Neither is refused
for having the tag of the other, what one has is not listed as the other's, and what a
snapshot has for one is not restored to the other.

Key definitions: `TypeTag.OneByteApart`, `World.KeptApart`.
Key theorems: `TypeTag.foldl_absorb_injective`, `TypeTag.ofBytes_ne`,
`World.under_captureWhere_rework`, `World.column?_replay_but`, `TypeTag.separates_names`.
-/
import EntityWorld.Proofs.Listing
import Mathlib.Tactic

namespace EntityWorld

namespace TypeTag

/-! ### The steps of the hash -/

/-- The inverse of the prime among words. -/
def unprime : UInt64 := 0xce965057aff6957b

theorem prime_mul_unprime : prime * unprime = 1 := by decide

theorem mul_prime_injective : Function.Injective (· * prime) := by
  have hback : Function.LeftInverse (· * unprime) (· * prime) := by
    intro x
    calc x * prime * unprime = x * (prime * unprime) := UInt64.mul_assoc _ _ _
      _ = x := by rw [prime_mul_unprime, UInt64.mul_one]
  exact hback.injective

/-- A step tells the states before it apart. -/
theorem absorb_left_injective (b : UInt8) : Function.Injective (absorb · b) := by
  intro x y h
  exact (UInt64.xor_left_inj _).mp (mul_prime_injective h)

/-- It tells the bytes apart as well. -/
theorem absorb_right_injective (state : UInt64) : Function.Injective (absorb state) := by
  intro a b h
  exact UInt8.toUInt64_inj.mp ((UInt64.xor_right_inj _).mp (mul_prime_injective h))

/-- States that differ once differ for good, whatever bytes follow. -/
theorem foldl_absorb_injective (bytes : List UInt8) :
    Function.Injective fun state => bytes.foldl absorb state := by
  induction bytes with
  | nil => exact fun _ _ h => h
  | cons b bytes ih => exact ih.comp (absorb_left_injective b)

/-! ### Names -/

theorem ofBytes_ne {p s : List UInt8} {a b : UInt8} (h : a ≠ b) :
    ofBytes (p ++ [a] ++ s) ≠ ofBytes (p ++ [b] ++ s) := by
  intro heq
  have hend := congrArg value heq
  simp only [ofBytes, List.foldl_append, List.foldl_cons, List.foldl_nil] at hend
  exact h (absorb_right_injective _ (foldl_absorb_injective s hend))

/-- Names whose bytes differ in one place. -/
def OneByteApart (n m : String) : Prop :=
  ∃ p s a b, a ≠ b ∧ n.toUTF8.toList = p ++ [a] ++ s ∧ m.toUTF8.toList = p ++ [b] ++ s

variable {n m : String}

theorem OneByteApart.symm (h : OneByteApart n m) : OneByteApart m n := by
  obtain ⟨p, s, a, b, hab, hn, hm⟩ := h
  exact ⟨p, s, b, a, hab.symm, hm, hn⟩

theorem OneByteApart.ofName_ne (h : OneByteApart n m) : ofName n ≠ ofName m := by
  obtain ⟨p, s, a, b, hab, hn, hm⟩ := h
  rw [ofName, ofName, hn, hm]
  exact ofBytes_ne hab

end TypeTag

/-! ### Entries by their tags -/

namespace Snapshot

/-- The entries of one tag. -/
def under (s : Snapshot) (t : TypeTag) : Snapshot := ⟨s.entries.filter (·.tag = t)⟩

/-- The entries of all tags but one. -/
def but (s : Snapshot) (t : TypeTag) : Snapshot := ⟨s.entries.filter (·.tag ≠ t)⟩

end Snapshot

variable {κ : Type} [Family κ] [DecidableEq κ]

namespace World

variable {w w' u v : World κ} {k k' : κ} {t : TypeTag} {x : SnapshotEntry}

/-! ### What is registered -/

/-- A kind is refused for the sake of a kind with the same tag, so not for one whose name is
one byte apart. -/
theorem not_oneByteApart_of_collision {codec : Option (Codec (Value k))} {n m : String}
    (h : registerWith k codec w = .error (.tagCollision n m t) w') :
    ¬ TypeTag.OneByteApart (typeName k) m := by
  intro hm
  by_cases hk : w.isRegistered k
  · rw [registerWith_of_isRegistered hk] at h
    cases hrepeats : w.settings.repeats <;> rw [hrepeats] at h <;> cases h
  · rw [registerWith_of_not_isRegistered hk] at h
    cases hr : w.ofTag? (tagOf k) with
    | none =>
      rw [hr] at h
      cases h
    | some r =>
      rw [hr] at h
      cases h
      exact hm.ofName_ne (tag_of_ofTag? hr).symm

/-- Where all names are one byte apart from that of a kind, it is registered. -/
theorem registerWith_of_oneByteApart (codec : Option (Codec (Value k)))
    (h : ∀ r ∈ w.registrations, TypeTag.OneByteApart (typeName k) r.name) :
    registerWith k codec w = .ok () (w.enroll k codec) := by
  have htag : ∀ r ∈ w.registrations, r.tag ≠ tagOf k := fun r hr => (h r hr).ofName_ne.symm
  have hfree : w.ofTag? (tagOf k) = none := List.find?_eq_none.mpr (by simpa using htag)
  have hnew : ¬ w.isRegistered k := by
    intro hk
    obtain ⟨r, hr, rfl⟩ := isRegistered_iff.mp hk
    exact htag r hr rfl
  rw [registerWith_of_not_isRegistered hnew, hfree]

/-! ### What is listed -/

omit [DecidableEq κ] in
/-- A component is not listed under another tag. -/
theorem filter_listed_eq_none {keep : Handle → TypeTag → Bool} {e : Handle} {r : Registration κ}
    (h : r.tag ≠ t) : (if keep e r.tag then
        (r.encode? e.slot).map fun data => { index := e.index, tag := r.tag, data := data }
      else none).filter (fun x : SnapshotEntry => decide (x.tag = t)) = none := by
  refine Option.filter_eq_none_iff.mpr fun x hx htag => ?_
  exact h ((eq_of_listed hx).2.symm.trans (of_decide_eq_true htag))

/-- What is listed under a tag does not hang on the column of a kind with another tag. -/
theorem under_captureWhere_rework (hk : tagOf k ≠ t) (f : Column (Value k) → Column (Value k))
    (keep : Handle → TypeTag → Bool) :
    ((w.rework k f).captureWhere keep).under t = (w.captureWhere keep).under t := by
  have hentities : (w.rework k f).entities = w.entities := rfl
  unfold Snapshot.under captureWhere
  rw [Snapshot.mk.injEq, hentities, List.filter_flatMap, List.filter_flatMap]
  refine List.flatMap_congr fun e _ => ?_
  unfold rework
  rw [List.filterMap_map, List.filter_filterMap, List.filter_filterMap]
  refine List.filterMap_congr fun r _ => ?_
  rw [Function.comp_apply]
  by_cases hr : r.kind = k
  · have htag : r.tag ≠ t := fun h => hk (hr ▸ h)
    have htag' : (r.modifyColumn k f).tag ≠ t := Registration.tag_modifyColumn.trans_ne htag
    rw [filter_listed_eq_none htag, filter_listed_eq_none htag']
  · rw [Registration.modifyColumn_of_ne hr]

/-! ### What is restored -/

/-- Two worlds with the same kinds registered, and the same column of one of them. -/
structure SharesColumn (u v : World κ) (k : κ) : Prop where
  forms_eq : v.forms = u.forms
  column?_eq : v.column? k = u.column? k

namespace SharesColumn

/-- An entry is restored to one of the worlds only, not to the column. -/
theorem restoreEntry_of_ne (h : u.SharesColumn v k) (hu : u.pool.WellFormed)
    (hx : u.Replayable x) (hne : x.tag ≠ tagOf k) :
    (after (restoreEntry x) u).SharesColumn v k := by
  obtain ⟨k', c, a, hs, hi, hd⟩ := hx
  have hk : k ≠ k' := by
    rintro rfl
    exact hne (isRegistered_of_synced? hs).2.symm
  rw [after_of_ok (restoreEntry_eq hu hi hs hd)]
  constructor
  · rw [forms_write, forms_settle, h.forms_eq]
  · rw [column?_write_of_ne _ _ hk, column?_settle, h.column?_eq]

/-- An entry is restored to both of the worlds. Its slot may have had occupants of different
generations in them. -/
theorem restoreEntry (h : u.SharesColumn v k) (hu : u.pool.WellFormed) (hv : v.pool.WellFormed)
    (hx : u.Replayable x) :
    (after (restoreEntry x) u).SharesColumn (after (World.restoreEntry x) v) k := by
  obtain ⟨k', c, a, hs, hi, hd⟩ := hx
  have hs' : v.synced? x.tag = some ⟨k', c⟩ := (synced?_eq_of_forms h.forms_eq _).trans hs
  rw [after_of_ok (restoreEntry_eq hu hi hs hd), after_of_ok (restoreEntry_eq hv hi hs' hd)]
  constructor
  · rw [forms_write, forms_write, forms_settle, forms_settle, h.forms_eq]
  · by_cases hk : k = k'
    · subst hk
      rw [column?_write, column?_write, column?_settle, column?_settle, h.column?_eq]
      rfl
    · rw [column?_write_of_ne _ _ hk, column?_write_of_ne _ _ hk, column?_settle, column?_settle,
        h.column?_eq]

end SharesColumn

/-- Entries of another tag make no difference to a column. -/
theorem column?_replay_but (ht : t ≠ tagOf k) {xs : List SnapshotEntry} (h : u.SharesColumn v k)
    (hu : u.pool.WellFormed) (hv : v.pool.WellFormed) (hxs : ∀ x ∈ xs, u.Replayable x) :
    (v.replay (xs.filter (·.tag ≠ t))).column? k = (u.replay xs).column? k := by
  induction xs generalizing u v with
  | nil => exact h.column?_eq
  | cons x xs ih =>
    have hx := hxs x List.mem_cons_self
    obtain ⟨-, hu', -⟩ := hx.step hu
    have hrest := replayable_of_cons hu hxs
    by_cases hxt : x.tag = t
    · rw [List.filter_cons_of_neg (by simpa using hxt)]
      have hne : x.tag ≠ tagOf k := hxt.trans_ne ht
      exact ih (h.restoreEntry_of_ne hu hx hne) hu' hv hrest
    · rw [List.filter_cons_of_pos (by simpa using hxt)]
      have hx' : v.Replayable x := hx.congr (synced?_eq_of_forms h.forms_eq x.tag)
      obtain ⟨-, hv', -⟩ := hx'.step hv
      exact ih (h.restoreEntry hu hv hx) hu' hv' hrest

/-- A snapshot that can be restored can be restored without the entries of a tag, and to the
columns of kinds with other tags it does the same. -/
theorem exists_restore_but (hw : w.pool.WellFormed) (ht : t ≠ tagOf k) {s : Snapshot}
    (h : restore s w = .ok () w') :
    ∃ w'', restore (s.but t) w = .ok () w'' ∧ w''.column? k = w'.column? k := by
  obtain ⟨hxs, rfl⟩ := replay_of_restore hw h
  have hcheck : w.check (s.but t).entries = .ok () := by
    rw [check_eq_ok_iff]
    intro x hx
    exact check_eq_ok_iff.mp (check_of_restore h) x (List.mem_of_mem_filter hx)
  exact ⟨_, restore_of_check hw hcheck, column?_replay_but ht ⟨rfl, rfl⟩ hw hw hxs⟩

/-! ### Kinds that keep out of each other's way -/

/-- A kind does not get into the way of another one, whatever is registered besides. -/
structure KeptApart (k k' : κ) : Prop where
  tagOf_ne : tagOf k ≠ tagOf k'
  /-- Its tag does not stand for the other. -/
  kind_ne : ∀ (w : World κ) r, w.ofTag? (tagOf k) = some r → r.kind ≠ k'
  /-- It is not refused for having the other's tag. -/
  registerWith_ne : ∀ (w : World κ) codec n t w',
    registerWith k codec w ≠ .error (.tagCollision n (typeName k') t) w'
  /-- Whatever its column has, the same is listed as the other's. -/
  under_eq : ∀ (w : World κ) f keep,
    ((after (modifyColumn k f) w).captureWhere keep).under (tagOf k') =
      (w.captureWhere keep).under (tagOf k')
  /-- Whether or not a snapshot has entries for it, the same is restored to the other. -/
  exists_restore : ∀ (w : World κ), w.Exposed → ∀ s w', restore s w = .ok () w' →
    ∃ w'', restore (s.but (tagOf k)) w = .ok () w'' ∧ w''.column? k' = w'.column? k'

theorem keptApart_of_oneByteApart (h : TypeTag.OneByteApart (typeName k) (typeName k')) :
    KeptApart k k' where
  tagOf_ne := h.ofName_ne
  kind_ne w r hr hk := h.ofName_ne (hk ▸ (tag_of_ofTag? hr).symm)
  registerWith_ne _ _ _ _ _ herror := not_oneByteApart_of_collision herror h
  under_eq w f keep := by
    rw [after_modifyColumn]
    split
    · exact under_captureWhere_rework h.ofName_ne f keep
    · rfl
  exists_restore _ hw _ _ := exists_restore_but hw.pool_wellFormed h.ofName_ne

end World

namespace TypeTag

/-- **Names one byte apart have different tags.** Whatever bytes follow, the hash ends in
different states if it was in different ones before them. So byte strings that differ in one
place have different tags, and two kinds with such names are kept apart: neither is refused for
the other, and neither is taken for the other in a snapshot. A kind whose name is one byte
apart from all that are registered is registered as well. -/
theorem separates_names :
    (∀ bytes : List UInt8, Function.Injective fun state => bytes.foldl absorb state) ∧
    (∀ (p s : List UInt8) (a b : UInt8), a ≠ b →
      ofBytes (p ++ [a] ++ s) ≠ ofBytes (p ++ [b] ++ s)) ∧
    ∀ (κ : Type) [Family κ] [DecidableEq κ],
      (∀ k k' : κ, OneByteApart (typeName k) (typeName k') →
        World.KeptApart k k' ∧ World.KeptApart k' k) ∧
      ∀ (w : World κ) k codec, (∀ r ∈ w.registrations, OneByteApart (typeName k) r.name) →
        World.registerWith k codec w = .ok () (w.enroll k codec) := by
  refine ⟨foldl_absorb_injective, fun _ _ _ _ => ofBytes_ne, fun κ _ _ => ⟨?_, ?_⟩⟩
  · intro k k' h
    exact ⟨World.keptApart_of_oneByteApart h, World.keptApart_of_oneByteApart h.symm⟩
  · exact fun w k codec => World.registerWith_of_oneByteApart codec

/-- Two kinds whose names end in letters with different accents. -/
inductive Accented where
  | acute
  | grave
deriving DecidableEq

instance : Family Accented where
  Value _ := Star
  typeName
    | .acute => "Caf\u00e9"
    | .grave => "Caf\u00e8"

/-- The letters differ in the second of their two bytes, so both kinds can be registered. -/
theorem separates_names_accented :
    World.KeptApart Accented.acute Accented.grave ∧
    World.registerWith Accented.grave (some Star.codec) (World.enroll {} Accented.acute none) =
      .ok () ((World.enroll {} Accented.acute none).enroll Accented.grave (some Star.codec)) := by
  have hapart : OneByteApart (typeName Accented.acute) (typeName Accented.grave) :=
    ⟨[0x43, 0x61, 0x66, 0xc3], [], 0xa9, 0xa8, by decide, by decide +kernel,
      by decide +kernel⟩
  obtain ⟨-, -, hkinds⟩ := separates_names
  obtain ⟨hkept, hregisters⟩ := hkinds Accented
  refine ⟨(hkept _ _ hapart).1, hregisters _ _ _ fun r hr => ?_⟩
  have hr : r = ⟨.acute, {}, none⟩ := List.mem_singleton.mp hr
  rw [hr]
  exact hapart.symm

end TypeTag
end EntityWorld
