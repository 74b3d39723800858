/-
# Settings in JSON texts

Settings are given by an object of their fields, any of them and in any order. What is
given is read, and the other fields have their default values. Members of other names
may stand anywhere, whatever JSON their values are (`Settings.reads_given`). Written
out compactly, settings are read back.

Key definitions: `Settings.Field`, `Settings.Given`, `Settings.only`.
Key theorems: `Settings.readsAll_given`, `Settings.objectText_toJson`,
`Settings.reads_given`.
-/
import EntityWorld.JsonText.Settings
import EntityWorld.Proofs.JsonRecords
import Mathlib.Tactic

namespace EntityWorld

open JsonText

namespace Settings

/-- The fields of settings. -/
inductive Field where
  | reuse
  | repeats
  | capacity
  | slotLimit
deriving DecidableEq

/-- The name of a field in JSON. -/
def Field.name : Field → String
  | reuse => "recycle"
  | repeats => "duplicate_registration"
  | capacity => "entity_capacity"
  | slotLimit => "max_entities"

/-- The texts of the values that settings have for their fields: words as strings, and numbers
in decimal. -/
inductive Field.ValueText (c : Settings) : Field → List Char → Prop
  | reuse {t : List Char} : Spells t c.reuse.word.toList → ValueText c .reuse ('"' :: t ++ ['"'])
  | repeats {t : List Char} : Spells t c.repeats.word.toList →
      ValueText c .repeats ('"' :: t ++ ['"'])
  | capacity : ValueText c .capacity c.capacity.toNat.repr.toList
  | slotLimit : ValueText c .slotLimit c.slotLimit.toNat.repr.toList

/-- A member that is no field, with any value. -/
def Foreign (m : Member) : Prop := (∀ f : Field, m.name ≠ f.name) ∧ Written .value m.value

/-- Among some members are the fields of some settings that are listed, in that order, and no
others. -/
inductive Given (c : Settings) : List Field → List Member → Prop
  | nil : Given c [] []
  | field {f : Field} {v : List Char} {fs : List Field} {ms : List Member} : f.ValueText c v →
      Given c fs ms → Given c (f :: fs) (⟨f.name, v⟩ :: ms)
  | foreign {m : Member} {fs : List Field} {ms : List Member} : Foreign m → Given c fs ms →
      Given c fs (m :: ms)

/-- The settings with the default values for all fields but some. -/
def only (c : Settings) (fs : List Field) : Settings where
  reuse := if .reuse ∈ fs then c.reuse else ({} : Settings).reuse
  repeats := if .repeats ∈ fs then c.repeats else ({} : Settings).repeats
  capacity := if .capacity ∈ fs then c.capacity else ({} : Settings).capacity
  slotLimit := if .slotLimit ∈ fs then c.slotLimit else ({} : Settings).slotLimit

/-- What has been read when some fields have been. -/
def draft (c : Settings) (fs : List Field) : Draft where
  reuse := if .reuse ∈ fs then some c.reuse else none
  repeats := if .repeats ∈ fs then some c.repeats else none
  capacity := if .capacity ∈ fs then some c.capacity else none
  slotLimit := if .slotLimit ∈ fs then some c.slotLimit else none

variable {c : Settings} {fs gs : List Field} {ms : List Member} {f : Field} {m : Member}

theorem only_congr (h : ∀ f, f ∈ fs ↔ f ∈ gs) : c.only fs = c.only gs := by
  simp only [only, h]

theorem only_of_forall (h : ∀ f, f ∈ fs) : c.only fs = c := by
  simp [only, h]

theorem finish_draft (c : Settings) (fs : List Field) : (c.draft fs).finish = c.only fs := by
  have hgetD : ∀ {α : Type} (f : Field) (a b : α),
      (if f ∈ fs then some a else none).getD b = if f ∈ fs then a else b := by
    intro α f a b
    split <;> rfl
  simp only [Draft.finish, draft, only, hgetD]

theorem ofWord_reuse (o : ReuseOrder) : ReuseOrder.ofWord o.word = some o := by
  cases o <;> rfl

theorem ofWord_repeats (r : RepeatRule) : RepeatRule.ofWord r.word = some r := by
  cases r <;> rfl

/-- A field that has not been given yet is read. -/
theorem reads_field {v : List Char} (hv : f.ValueText c v) (hf : f ∉ fs) :
    Reads jsonFields ⟨f.name, v⟩ (c.draft fs) (c.draft (f :: fs)) := by
  cases hv with
  | reuse ht =>
    refine .word (f := jsonFields[0]) rfl ?_ rfl ht (ofWord_reuse c.reuse) fun cs rest h => ?_
    · simp [jsonFields, draft, hf]
    · simp [jsonFields, draft, h, bind, Except.bind]
  | repeats ht =>
    refine .word (f := jsonFields[1]) rfl ?_ rfl ht (ofWord_repeats c.repeats) fun cs rest h => ?_
    · simp [jsonFields, draft, hf]
    · simp [jsonFields, draft, h, bind, Except.bind]
  | capacity =>
    refine .natural (f := jsonFields[2]) rfl ?_ rfl c.capacity.toNat_lt_size fun cs rest h => ?_
    · simp [jsonFields, draft, hf]
    · simp [jsonFields, draft, h, bind, Except.bind]
  | slotLimit =>
    refine .natural (f := jsonFields[3]) rfl ?_ rfl c.slotLimit.toNat_lt_size fun cs rest h => ?_
    · simp [jsonFields, draft, hf]
    · simp [jsonFields, draft, h, bind, Except.bind]

theorem reads_foreign (hm : Foreign m) (d : Draft) : Reads jsonFields m d d := by
  obtain ⟨hname, hvalue⟩ := hm
  refine .other ?_ hvalue
  have hreuse := hname .reuse
  have hrepeats := hname .repeats
  have hcapacity := hname .capacity
  have hslotLimit := hname .slotLimit
  simp only [Field.name] at hreuse hrepeats hcapacity hslotLimit
  simp [jsonFields, hreuse.symm, hrepeats.symm, hcapacity.symm, hslotLimit.symm]

/-- Members are read one after the other, if no field is given twice. -/
theorem readsAll_given (h : Given c fs ms) (hfs : (fs ++ gs).Nodup) :
    ReadsAll jsonFields ms (c.draft gs) (c.draft (fs.reverse ++ gs)) := by
  induction h generalizing gs with
  | nil => exact .nil
  | @field f v fs ms hv _ ih =>
    obtain ⟨hf, hrest⟩ := List.nodup_cons.mp hfs
    have hf' : f ∉ gs := fun hmem => hf (List.mem_append_right fs hmem)
    have hnext : (fs ++ f :: gs).Nodup := List.nodup_middle.mpr hfs
    rw [List.reverse_cons, List.append_assoc]
    exact .cons (reads_field hv hf') (ih hnext)
  | foreign hm _ ih => exact .cons (reads_foreign hm _) (ih hfs)

theorem ofJson_given {text : String} (hfs : fs.Nodup) (h : Given c fs ms)
    (htext : ObjectText ms text.toList) : ofJson text = .ok (c.only fs) := by
  have hreads : ReadsAll jsonFields ms (c.draft []) (c.draft (fs.reverse ++ [])) :=
    readsAll_given h (by rwa [List.append_nil])
  rw [List.append_nil] at hreads
  have hparse := parseRecord_object htext hreads fun d => .ok d.finish
  rw [finish_draft, only_congr fun f => List.mem_reverse] at hparse
  exact hparse

theorem plain_name (f : Field) : ∀ c ∈ f.name.toList, Plain c := by
  cases f <;> simp [Field.name, Plain]

theorem plain_reuse (o : ReuseOrder) : ∀ c ∈ o.word.toList, Plain c := by
  cases o <;> simp [ReuseOrder.word, Plain]

theorem plain_repeats (r : RepeatRule) : ∀ c ∈ r.word.toList, Plain c := by
  cases r <;> simp [RepeatRule.word, Plain]

/-- Settings give all of their fields in their compact text. -/
theorem objectText_toJson (c : Settings) :
    ∃ ms, Given c [.reuse, .repeats, .capacity, .slotLimit] ms ∧ ObjectText ms c.toJson.toList := by
  have hreuse := Field.ValueText.reuse (.of_plain (plain_reuse c.reuse))
  have hrepeats := Field.ValueText.repeats (.of_plain (plain_repeats c.repeats))
  refine ⟨_, .field hreuse (.field hrepeats (.field .capacity (.field .slotLimit .nil))), ?_⟩
  have hnames : ∀ m ∈ ([⟨Field.reuse.name, '"' :: c.reuse.word.toList ++ ['"']⟩,
      ⟨Field.repeats.name, '"' :: c.repeats.word.toList ++ ['"']⟩,
      ⟨Field.capacity.name, c.capacity.toNat.repr.toList⟩,
      ⟨Field.slotLimit.name, c.slotLimit.toNat.repr.toList⟩] : List Member),
      ∀ c ∈ m.name.toList, Plain c := by
    simp only [List.forall_mem_cons]
    exact ⟨plain_name _, plain_name _, plain_name _, plain_name _, by simp⟩
  have hobject := objectText_compact hnames
  unfold toJson
  simpa [Member.compact, Field.name] using hobject

theorem Given.insert {ms₁ ms₂ : List Member} (h : Given c fs (ms₁ ++ ms₂)) (hm : Foreign m) :
    Given c fs (ms₁ ++ m :: ms₂) := by
  induction ms₁ generalizing fs with
  | nil => exact .foreign hm h
  | cons m' ms₁ ih =>
    cases h with
    | field hv h => exact .field hv (ih h)
    | foreign hm' h => exact .foreign hm' (ih h)

/-- **What is given of settings is read, the rest of them is default, and nothing else counts.**
For any settings, an object of some of their fields, in any order, stands for the settings that
agree with them on those fields and have their default values elsewhere. Their compact text
stands for the settings themselves. One more member of another name, wherever it is put and
whatever JSON its value is, makes no difference. -/
theorem reads_given (c : Settings) :
    (∀ fs ms text, fs.Nodup → Given c fs ms → ObjectText ms text.toList →
      ofJson text = .ok (c.only fs)) ∧
    ofJson c.toJson = .ok c ∧
    (∀ fs ms₁ ms₂ m text text', fs.Nodup → Given c fs (ms₁ ++ ms₂) → Foreign m →
      ObjectText (ms₁ ++ ms₂) text.toList → ObjectText (ms₁ ++ m :: ms₂) text'.toList →
      ofJson text' = ofJson text) := by
  refine ⟨fun fs ms text => ofJson_given, ?_, ?_⟩
  · obtain ⟨ms, hgiven, htext⟩ := objectText_toJson c
    have hall : ∀ f : Field, f ∈ [Field.reuse, .repeats, .capacity, .slotLimit] := by
      rintro (_ | _ | _ | _) <;> decide
    rw [ofJson_given (by decide) hgiven htext, only_of_forall hall]
  · intro fs ms₁ ms₂ m text text' hfs hgiven hm htext htext'
    rw [ofJson_given hfs hgiven htext, ofJson_given hfs (hgiven.insert hm) htext']

theorem reads_given_oldestFirst :
    ofJson "\x7b\"max_entities\":7 ,\"recycle\":\"fifo\"\x7d" =
      .ok { reuse := .oldestFirst, slotLimit := 7 } ∧
    ofJson "\x7b\"max_entities\":7,\"x\": [[]],\"recycle\":\"fifo\"\x7d" =
      ofJson "\x7b\"max_entities\":7 ,\"recycle\":\"fifo\"\x7d" := by
  let c : Settings := { reuse := .oldestFirst, repeats := .reject, slotLimit := 7 }
  let limit : Member := ⟨Field.slotLimit.name, c.slotLimit.toNat.repr.toList⟩
  let order : Member := ⟨Field.reuse.name, '"' :: c.reuse.word.toList ++ ['"']⟩
  let other : Member := ⟨"x", ['[', '[', ']', ']']⟩
  have hgiven : Given c [.slotLimit, .reuse] ([limit] ++ [order]) :=
    .field .slotLimit (.field (.reuse (.of_plain (plain_reuse c.reuse))) .nil)
  have hother : Foreign other := by
    refine ⟨fun f => by cases f <;> decide, ?_⟩
    exact .bracket (k := .array) (.element .nil (.empty .array .nil) .nil) (.close .array)
  have hspace : Blank [' '] := by simp [Blank]
  have hlimit := text_compact (plain_name .slotLimit) limit.value
  have horder := text_compact (plain_name .reuse) order.value
  have htext := Member.Text.mk (m := other) (.of_plain (by simp [other, Plain])) .nil hspace
  have hseven : Nat.toDigits 10 c.slotLimit.toNat = ['7'] := by decide
  have hfifo : c.reuse.word.toList = ['f', 'i', 'f', 'o'] := by decide
  have hwithout : ObjectText ([limit] ++ [order])
      "\x7b\"max_entities\":7 ,\"recycle\":\"fifo\"\x7d".toList := by
    have h := ObjectText.mk .nil
      (.first .nil hlimit (.next hspace .nil horder (.close .nil))) .nil
    simpa [limit, order, Field.name, hseven, hfifo] using h
  have hwith : ObjectText ([limit] ++ other :: [order])
      "\x7b\"max_entities\":7,\"x\": [[]],\"recycle\":\"fifo\"\x7d".toList := by
    have h := ObjectText.mk .nil (.first .nil hlimit (.next .nil .nil htext
      (.next .nil .nil horder (.close .nil)))) .nil
    simpa [limit, order, other, Field.name, hseven, hfifo] using h
  obtain ⟨hread, -, hinsert⟩ := reads_given c
  exact ⟨hread _ _ _ (by decide) hgiven hwithout,
    hinsert _ _ _ _ _ _ (by decide) hgiven hother hwithout hwith⟩

end Settings
end EntityWorld
