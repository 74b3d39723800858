/-
# Three tables of kinds

What is registered may be kept in three tables, each with a key of its own: the order of
registration, the store of a kind (`Store`) and the kind that a tag stands for. A
registration writes to all three, and who goes through the order or comes by a tag
takes it for granted that there is a store. Here these look-ups may miss, and `none` is
what comes of it then.

They never do. Whatever is asked of the tables, in whatever order, the order lists once
each kind that has a store, and the tags are those of these kinds, one each
(`Tables.Consistent`). What was registered stays where it is, and so does its codec
(`Tables.Extends`).

Key definitions: `Tables`, `Tables.registerWith`, `Tables.sweep`, `Tables.Request`,
`Tables.serve`, `Tables.Consistent`, `Tables.Extends`.
Key theorems: `Tables.Consistent.stores_sweep`, `Tables.Consistent.apply`,
`Tables.Consistent.serve`.
-/
import EntityWorld.World.Replication
import Mathlib.Tactic

namespace EntityWorld

theorem mapM_eq_some_map {α β : Type} {f : α → Option β} {g : α → β} {xs : List α}
    (h : ∀ x ∈ xs, f x = some (g x)) : xs.mapM f = some (xs.map g) := by
  induction xs with
  | nil => rfl
  | cons x xs ih =>
    rw [List.mapM_cons, h x List.mem_cons_self, ih fun y hy => h y (List.mem_cons_of_mem x hy)]
    rfl

variable {κ : Type} [Family κ]

/-- What is kept of a registered kind. -/
structure Store (k : κ) where
  column : Column (Value k) := {}
  codec : Option (Codec (Value k)) := none

namespace Store

variable {k : κ}

def modify (f : Column (Value k) → Column (Value k)) (s : Store k) : Store k :=
  { s with column := f s.column }

/-- Takes a codec if it has none. -/
def offer (codec : Option (Codec (Value k))) (s : Store k) : Store k :=
  { s with codec := s.codec.or codec }

/-- The entry of an entity in a snapshot of the components for which `keep` holds. -/
def entry? (keep : Handle → TypeTag → Bool) (e : Handle) (s : Store k) : Option SnapshotEntry :=
  match s.codec with
  | none => none
  | some codec =>
    if keep e (tagOf k) then
      (s.column.get? e.slot).map fun v => { index := e.index, tag := tagOf k, data := codec.encode v }
    else none

end Store

/-- What is registered, by position, by kind and by tag. -/
@[ext]
structure Tables (κ : Type) [Family κ] where
  order : List κ := []
  stores : (k : κ) → Option (Store k) := fun _ => none
  byTag : TypeTag → Option κ := fun _ => none

namespace Tables

/-! ### Look-ups -/

section LookUps

variable (t : Tables κ)

/-- The column of a kind that was just registered. -/
def handOut (k : κ) : EStateM.Result WorldError (Tables κ) (Column (Value k)) :=
  match t.stores k with
  | some s => .ok s.column t
  | none => .error (.notRegistered (typeName k)) t

theorem handOut_of_stores {t : Tables κ} {k : κ} {s : Store k} (hs : t.stores k = some s) :
    t.handOut k = .ok s.column t := by
  unfold handOut
  rw [hs]

/-- The tags and names of the registered kinds. -/
def types? : Option (List (TypeTag × String)) :=
  t.order.mapM fun k => (t.stores k).map fun _ => (tagOf k, typeName k)

/-- The tags of the kinds that have something in a slot. -/
def typesAt? (i : Nat) : Option (List TypeTag) :=
  (t.order.mapM fun k => (t.stores k).map fun s => (tagOf k, s.column.contains i)).map fun xs =>
    (xs.filter (·.2)).map (·.1)

/-- The entries of an entity in a snapshot. -/
def entriesOf? (keep : Handle → TypeTag → Bool) (e : Handle) : Option (List SnapshotEntry) :=
  (t.order.mapM fun k => (t.stores k).map (Store.entry? keep e)).map (·.filterMap id)

/-- A snapshot of some entities. -/
def capture? (es : List Handle) (keep : Handle → TypeTag → Bool) : Option Snapshot :=
  (es.mapM (t.entriesOf? keep)).map fun rows => ⟨rows.flatten⟩

/-- The kind that a tag stands for in snapshots, and its codec. -/
def synced? (tag : TypeTag) : Option (Option ((k : κ) × Codec (Value k))) :=
  match t.byTag tag with
  | none => some none
  | some k => (t.stores k).map fun s => s.codec.map fun codec => ⟨k, codec⟩

end LookUps

/-! ### Consistency -/

section Consistency

/-- The tables tell of the same kinds. -/
structure Consistent (t : Tables κ) : Prop where
  nodup : t.order.Nodup
  mem_order_iff : ∀ k, k ∈ t.order ↔ (t.stores k).isSome
  byTag_iff : ∀ tag k, t.byTag tag = some k ↔ k ∈ t.order ∧ tagOf k = tag

/-- What was registered in `t` is registered in `u`, at the same place, and has the codec
that it had. -/
structure Extends (t u : Tables κ) : Prop where
  order : t.order <+: u.order
  stores : ∀ k s, t.stores k = some s →
    ∃ s', u.stores k = some s' ∧ ∀ codec, s.codec = some codec → s'.codec = some codec

/-- The tables tell of the same kinds with the same codecs. -/
structure Resembles (t u : Tables κ) : Prop where
  order : u.order = t.order
  codec : ∀ k s, t.stores k = some s → ∃ s', u.stores k = some s' ∧ s'.codec = s.codec

variable {t u v : Tables κ}

theorem Resembles.refl (t : Tables κ) : t.Resembles t := ⟨rfl, fun _ s hs => ⟨s, hs, rfl⟩⟩

theorem Resembles.trans (h : t.Resembles u) (h' : u.Resembles v) : t.Resembles v := by
  refine ⟨h'.order.trans h.order, fun k s hs => ?_⟩
  obtain ⟨s', hs', hc⟩ := h.codec k s hs
  obtain ⟨s'', hs'', hc'⟩ := h'.codec k s' hs'
  exact ⟨s'', hs'', hc'.trans hc⟩

theorem Resembles.extends (h : t.Resembles u) : t.Extends u := by
  refine ⟨h.order ▸ List.prefix_rfl, fun k s hs => ?_⟩
  obtain ⟨s', hs', hc⟩ := h.codec k s hs
  exact ⟨s', hs', fun codec hown => hc.trans hown⟩

/-- A tag stands for the same kind in both, with the same codec. -/
theorem Resembles.synced?_eq (h : t.Resembles u) (ht : t.Consistent) (hu : u.Consistent)
    (tag : TypeTag) : u.synced? tag = t.synced? tag := by
  have htag : u.byTag tag = t.byTag tag := by
    ext k
    rw [hu.byTag_iff, ht.byTag_iff, h.order]
  unfold Tables.synced?
  rw [htag]
  cases hk : t.byTag tag with
  | none => rfl
  | some k =>
    have hreg := (ht.mem_order_iff k).mp ((ht.byTag_iff tag k).mp hk).1
    obtain ⟨s, hs⟩ := Option.isSome_iff_exists.mp hreg
    obtain ⟨s', hs', hc⟩ := h.codec k s hs
    simp only [hs, hs', Option.map_some, hc]

theorem Extends.refl (t : Tables κ) : t.Extends t := (Resembles.refl t).extends

theorem Extends.trans (h : t.Extends u) (h' : u.Extends v) : t.Extends v := by
  refine ⟨h.order.trans h'.order, fun k s hs => ?_⟩
  obtain ⟨s', hs', hkeep⟩ := h.stores k s hs
  obtain ⟨s'', hs'', hkeep'⟩ := h'.stores k s' hs'
  exact ⟨s'', hs'', fun codec hc => hkeep' codec (hkeep codec hc)⟩

theorem Consistent.tagOf_inj (h : t.Consistent) {k k' : κ} (hk : k ∈ t.order) (hk' : k' ∈ t.order)
    (htag : tagOf k = tagOf k') : k = k' := by
  have hself := (h.byTag_iff (tagOf k) k).mpr ⟨hk, rfl⟩
  rw [(h.byTag_iff (tagOf k) k').mpr ⟨hk', htag.symm⟩] at hself
  exact (Option.some.inj hself).symm

/-- Who goes through the order comes by a kind once if it has a store, and else not at all. -/
theorem Consistent.count_order [DecidableEq κ] (h : t.Consistent) (k : κ) :
    t.order.count k = if (t.stores k).isSome then 1 else 0 := by
  rw [h.nodup.count]
  exact if_congr (h.mem_order_iff k) rfl rfl

theorem consistent_empty : ({} : Tables κ).Consistent where
  nodup := List.nodup_nil
  mem_order_iff k := by simp
  byTag_iff tag k := by simp

end Consistency

/-! ### Requests -/

variable [DecidableEq κ]

section Updates

variable (t : Tables κ)

def put (k : κ) (s : Option (Store k)) : Tables κ :=
  { t with stores := Function.update t.stores k s }

/-- Changes the column of a kind, if it has a store. -/
def modify (k : κ) (f : Column (Value k) → Column (Value k)) : Tables κ :=
  t.put k ((t.stores k).map (·.modify f))

/-- Empties a slot, kind by kind in the order of registration. -/
def sweep (i : Nat) : Tables κ := t.order.foldl (fun u k => u.modify k (·.erase i)) t

/-- Writes a new kind to all tables. -/
def enroll (k : κ) (codec : Option (Codec (Value k))) : Tables κ where
  order := t.order ++ [k]
  stores := Function.update t.stores k (some { codec := codec })
  byTag := Function.update t.byTag (tagOf k) (some k)

/-- Registers a kind and hands out its column. The name of the kind that has the tag
already is asked of its store. -/
def registerWith (repeats : RepeatRule) (k : κ) (codec : Option (Codec (Value k))) :
    Option (EStateM.Result WorldError (Tables κ) (Column (Value k))) :=
  match t.stores k with
  | some s =>
    match repeats with
    | .reject => some (.error (.alreadyRegistered (typeName k)) t)
    | .accept => some ((t.put k (some (s.offer codec))).handOut k)
  | none =>
    match t.byTag (tagOf k) with
    | some other => (t.stores other).map fun _ =>
        .error (.tagCollision (typeName k) (typeName other) (tagOf k)) t
    | none => some ((t.enroll k codec).handOut k)

end Updates

/-- What may be asked of the tables. -/
inductive Request (κ : Type) [Family κ] where
  | register (k : κ) (codec : Option (Codec (Value k)))
  | sweep (i : Nat)
  | modify (k : κ) (f : Column (Value k) → Column (Value k))

/-- The tables that a result leaves. -/
def left {α : Type} : EStateM.Result WorldError (Tables κ) α → Tables κ
  | .ok _ t => t
  | .error _ t => t

/-- The tables after a request, unless a look-up missed. -/
def Request.apply (repeats : RepeatRule) : Request κ → Tables κ → Option (Tables κ)
  | register k codec, t => (t.registerWith repeats k codec).map left
  | sweep i, t => some (t.sweep i)
  | modify k f, t => some (t.modify k f)

/-- The tables after some requests, one after another. -/
def serve (repeats : RepeatRule) (t : Tables κ) (rs : List (Request κ)) : Option (Tables κ) :=
  rs.foldlM (fun t r => r.apply repeats t) t

/-! ### What requests keep -/

variable {t : Tables κ} {k : κ}

@[simp] theorem stores_put (k : κ) (s : Option (Store k)) : (t.put k s).stores k = s :=
  Function.update_self ..

theorem stores_put_of_ne {k' : κ} (hk : k' ≠ k) (s : Option (Store k)) :
    (t.put k s).stores k' = t.stores k' := Function.update_of_ne hk ..

theorem stores_modify (f : Column (Value k) → Column (Value k)) :
    (t.modify k f).stores k = (t.stores k).map (·.modify f) := stores_put ..

theorem stores_modify_of_ne {k' : κ} (hk : k' ≠ k) (f : Column (Value k) → Column (Value k)) :
    (t.modify k f).stores k' = t.stores k' := stores_put_of_ne hk _

/-- If a kind's store is put in the place of its own store the tables tell of the same kinds. -/
theorem Consistent.put (h : t.Consistent) {s : Option (Store k)}
    (hs : s.isSome = (t.stores k).isSome) : (t.put k s).Consistent where
  nodup := h.nodup
  mem_order_iff k' := by
    rw [show (t.put k s).order = t.order from rfl, h.mem_order_iff]
    by_cases hk : k' = k
    · subst hk
      rw [stores_put, hs]
    · rw [stores_put_of_ne hk]
  byTag_iff := h.byTag_iff

theorem Consistent.modify (h : t.Consistent) (f : Column (Value k) → Column (Value k)) :
    (t.modify k f).Consistent := h.put Option.isSome_map

theorem extends_put {s s' : Store k} (hs : t.stores k = some s)
    (hkeep : ∀ codec, s.codec = some codec → s'.codec = some codec) :
    t.Extends (t.put k (some s')) where
  order := List.prefix_rfl
  stores k' s₀ hs₀ := by
    by_cases hk : k' = k
    · subst hk
      rw [hs] at hs₀
      cases hs₀
      exact ⟨s', stores_put .., hkeep⟩
    · exact ⟨s₀, (stores_put_of_ne hk _).trans hs₀, fun _ => id⟩

theorem resembles_modify (f : Column (Value k) → Column (Value k)) : t.Resembles (t.modify k f) := by
  refine ⟨rfl, fun k' s hs => ?_⟩
  by_cases hk : k' = k
  · subst hk
    exact ⟨s.modify f, by rw [stores_modify, hs]; rfl, rfl⟩
  · exact ⟨s, (stores_modify_of_ne hk f).trans hs, rfl⟩

/-! ### Sweeps -/

/-- The order is left alone, and each kind on the list loses what is in the slot. -/
theorem foldl_erase (i : Nat) {ks : List κ} (hks : ks.Nodup) (t : Tables κ) :
    let u := ks.foldl (fun u k => u.modify k (·.erase i)) t
    u.order = t.order ∧ u.byTag = t.byTag ∧ ∀ k,
      u.stores k = if k ∈ ks then (t.stores k).map (·.modify (·.erase i)) else t.stores k := by
  induction ks generalizing t with
  | nil => exact ⟨rfl, rfl, fun k => (if_neg List.not_mem_nil).symm⟩
  | cons k ks ih =>
    obtain ⟨hnew, hks⟩ := List.nodup_cons.mp hks
    obtain ⟨horder, htag, hstores⟩ := ih hks (t.modify k (·.erase i))
    refine ⟨horder, htag, fun k' => (hstores k').trans ?_⟩
    by_cases hk : k' = k
    · subst hk
      rw [if_neg hnew, if_pos List.mem_cons_self, stores_modify]
    · rw [stores_modify_of_ne hk]
      simp only [List.mem_cons, hk, false_or]

/-- A sweep empties the slot of every kind, going to each once. -/
theorem Consistent.stores_sweep (h : t.Consistent) (i : Nat) (k : κ) :
    (t.sweep i).stores k = (t.stores k).map (·.modify (·.erase i)) := by
  refine ((foldl_erase i h.nodup t).2.2 k).trans ?_
  split
  · rfl
  · next hk =>
    rw [h.mem_order_iff, Option.not_isSome_iff_eq_none] at hk
    rw [hk]
    rfl

theorem Consistent.resembles_sweep (h : t.Consistent) (i : Nat) : t.Resembles (t.sweep i) := by
  refine ⟨(foldl_erase i h.nodup t).1, fun k s hs => ?_⟩
  exact ⟨s.modify (·.erase i), by rw [h.stores_sweep, hs]; rfl, rfl⟩

theorem Consistent.sweep (h : t.Consistent) (i : Nat) : (t.sweep i).Consistent := by
  obtain ⟨horder, htag, -⟩ := foldl_erase i h.nodup t
  refine ⟨horder ▸ h.nodup, fun k => ?_, fun tag k => ?_⟩
  · rw [h.stores_sweep, Option.isSome_map, ← h.mem_order_iff]
    exact horder ▸ Iff.rfl
  · have hsame : (t.sweep i).byTag tag = t.byTag tag := congrFun htag tag
    rw [hsame, h.byTag_iff]
    exact horder ▸ Iff.rfl

/-! ### Registrations -/

variable {codec : Option (Codec (Value k))}

@[simp] theorem stores_enroll : (t.enroll k codec).stores k = some { codec := codec } :=
  Function.update_self ..

theorem stores_enroll_of_ne {k' : κ} (hk : k' ≠ k) :
    (t.enroll k codec).stores k' = t.stores k' := Function.update_of_ne hk ..

@[simp] theorem byTag_enroll : (t.enroll k codec).byTag (tagOf k) = some k :=
  Function.update_self ..

theorem byTag_enroll_of_ne {tag : TypeTag} (ht : tag ≠ tagOf k) :
    (t.enroll k codec).byTag tag = t.byTag tag := Function.update_of_ne ht ..

theorem mem_order_enroll {k' : κ} : k' ∈ (t.enroll k codec).order ↔ k' ∈ t.order ∨ k' = k := by
  rw [Tables.enroll, List.mem_append, List.mem_singleton]

omit [DecidableEq κ] in
theorem ne_of_stores {k' : κ} {s : Store k'} (hk : t.stores k = none) (hs : t.stores k' = some s) :
    k' ≠ k := by
  rintro rfl
  rw [hk] at hs
  cases hs

theorem extends_enroll (hk : t.stores k = none) : t.Extends (t.enroll k codec) where
  order := List.prefix_append _ _
  stores _ s hs := ⟨s, (stores_enroll_of_ne (ne_of_stores hk hs)).trans hs, fun _ => id⟩

/-- A kind and a tag that are new to all tables. -/
theorem Consistent.enroll (h : t.Consistent) (hk : t.stores k = none)
    (htag : t.byTag (tagOf k) = none) : (t.enroll k codec).Consistent := by
  have hnew : k ∉ t.order := by
    rw [h.mem_order_iff, hk]
    exact Bool.false_ne_true
  have hfree : ∀ k' ∈ t.order, tagOf k' ≠ tagOf k := fun k' hk' heq => by
    have hother := (h.byTag_iff (tagOf k) k').mpr ⟨hk', heq⟩
    rw [htag] at hother
    cases hother
  refine ⟨?_, fun k' => ?_, fun tag k' => ?_⟩
  · exact List.nodup_append_comm.mp (List.nodup_cons.mpr ⟨hnew, h.nodup⟩)
  · rw [mem_order_enroll, h.mem_order_iff]
    by_cases hkk : k' = k
    · subst hkk
      rw [stores_enroll]
      exact ⟨fun _ => rfl, fun _ => Or.inr rfl⟩
    · rw [stores_enroll_of_ne hkk]
      exact or_iff_left hkk
  · rw [mem_order_enroll]
    by_cases ht : tag = tagOf k
    · subst ht
      rw [byTag_enroll, Option.some.injEq]
      refine ⟨fun heq => ⟨Or.inr heq.symm, congrArg tagOf heq.symm⟩, fun ⟨hmem, heq⟩ => ?_⟩
      exact (hmem.resolve_left fun hk' => hfree k' hk' heq).symm
    · rw [byTag_enroll_of_ne ht, h.byTag_iff]
      refine ⟨fun ⟨hmem, heq⟩ => ⟨Or.inl hmem, heq⟩, fun ⟨hmem, heq⟩ => ⟨?_, heq⟩⟩
      exact hmem.resolve_right fun hkk => ht (hkk ▸ heq.symm)

/-- A registration finds every store that it looks up, the one of the kind that has the tag
already and the one that it hands out. It is refused, offers a codec to a store that is
there, or enrolls a new kind. -/
theorem Consistent.registerWith_cases (h : t.Consistent) (repeats : RepeatRule) (k : κ)
    (codec : Option (Codec (Value k))) :
    ∃ r, t.registerWith repeats k codec = some r ∧
      (left r = t ∧ (repeats = .accept → t.stores k = none) ∨
        (∃ s, t.stores k = some s ∧ repeats = .accept ∧
          left r = t.put k (some (s.offer codec))) ∨
        (t.stores k = none ∧ t.byTag (tagOf k) = none ∧ left r = t.enroll k codec)) := by
  unfold Tables.registerWith
  cases hs : t.stores k with
  | some s =>
    cases repeats with
    | reject => exact ⟨_, rfl, Or.inl ⟨rfl, fun heq => by cases heq⟩⟩
    | accept =>
      refine ⟨_, congrArg some (handOut_of_stores (stores_put ..)), Or.inr (Or.inl ?_)⟩
      exact ⟨s, rfl, rfl, rfl⟩
  | none =>
    cases htag : t.byTag (tagOf k) with
    | some other =>
      have hother := (h.mem_order_iff other).mp ((h.byTag_iff _ _).mp htag).1
      obtain ⟨s, hs⟩ := Option.isSome_iff_exists.mp hother
      exact ⟨_, congrArg (Option.map _) hs, Or.inl ⟨rfl, fun _ => rfl⟩⟩
    | none =>
      refine ⟨_, congrArg some (handOut_of_stores stores_enroll), Or.inr (Or.inr ?_)⟩
      exact ⟨rfl, rfl, rfl⟩

theorem Consistent.registerWith (h : t.Consistent) (repeats : RepeatRule) (k : κ)
    (codec : Option (Codec (Value k))) :
    ∃ r, t.registerWith repeats k codec = some r ∧ (left r).Consistent ∧ t.Extends (left r) := by
  obtain ⟨r, hr, hcases⟩ := h.registerWith_cases repeats k codec
  refine ⟨r, hr, ?_⟩
  rcases hcases with ⟨hleft, -⟩ | ⟨s, hs, -, hleft⟩ | ⟨hs, htag, hleft⟩
  · rw [hleft]
    exact ⟨h, .refl t⟩
  · rw [hleft]
    refine ⟨h.put ?_, extends_put hs fun own hown => ?_⟩
    · rw [hs]
      rfl
    · rw [Store.offer, hown]
      rfl
  · rw [hleft]
    exact ⟨h.enroll hs htag, extends_enroll hs⟩

/-- Of a kind that was registered a registration leaves the column as it was, and the codec
if there is one; if not, the kind takes the one that comes with its own registration, under
a rule that accepts this. -/
theorem Consistent.stores_registerWith (h : t.Consistent) (repeats : RepeatRule) (k' : κ)
    (codec : Option (Codec (Value k'))) {s : Store k} (hs : t.stores k = some s) :
    ∃ r s', t.registerWith repeats k' codec = some r ∧ (left r).stores k = some s' ∧
      s'.column = s.column ∧ s'.codec = if repeats = .accept then
        s.codec.or (if heq : k' = k then heq ▸ codec else none) else s.codec := by
  obtain ⟨r, hr, hcases⟩ := h.registerWith_cases repeats k' codec
  have hsame : s.codec = if repeats = .accept then s.codec.or none else s.codec := by
    rw [Option.or_none, ite_self]
  rcases hcases with ⟨hleft, hnew⟩ | ⟨s₁, hs₁, haccept, hleft⟩ | ⟨hnew, -, hleft⟩
  · refine ⟨r, s, hr, hleft ▸ hs, rfl, ?_⟩
    split
    · next haccept =>
      rw [dif_neg (ne_of_stores (hnew haccept) hs).symm, Option.or_none]
    · rfl
  · by_cases hk : k' = k
    · subst hk
      rw [hs₁] at hs
      cases hs
      refine ⟨r, s₁.offer codec, hr, hleft ▸ stores_put .., rfl, ?_⟩
      rw [if_pos haccept, dif_pos rfl]
      rfl
    · rw [dif_neg hk]
      exact ⟨r, s, hr, hleft ▸ (stores_put_of_ne (Ne.symm hk) _).trans hs, rfl, hsame⟩
  · have hk := ne_of_stores hnew hs
    rw [dif_neg hk.symm]
    exact ⟨r, s, hr, hleft ▸ (stores_enroll_of_ne hk).trans hs, rfl, hsame⟩

/-! ### Requests in a row -/

/-- No look-up of a request misses, and it leaves the tables consistent. -/
theorem Consistent.apply (h : t.Consistent) (repeats : RepeatRule) (r : Request κ) :
    ∃ u, r.apply repeats t = some u ∧ u.Consistent ∧ t.Extends u := by
  cases r with
  | register k codec =>
    obtain ⟨r, hr, hdone⟩ := h.registerWith repeats k codec
    exact ⟨left r, congrArg (Option.map left) hr, hdone⟩
  | sweep i => exact ⟨_, rfl, h.sweep i, (h.resembles_sweep i).extends⟩
  | modify k f => exact ⟨_, rfl, h.modify f, (resembles_modify f).extends⟩

theorem serve_cons (repeats : RepeatRule) (t : Tables κ) (r : Request κ) (rs : List (Request κ)) :
    t.serve repeats (r :: rs) = (r.apply repeats t).bind fun u => u.serve repeats rs :=
  List.foldlM_cons

theorem serve_append (repeats : RepeatRule) (t : Tables κ) (rs rs' : List (Request κ)) :
    t.serve repeats (rs ++ rs') = (t.serve repeats rs).bind fun u => u.serve repeats rs' :=
  List.foldlM_append

/-- **Tables stay consistent.** Whatever is asked of them, no look-up misses, and they
tell of the same kinds in the end, of those that they told of before and maybe more. -/
theorem Consistent.serve (h : t.Consistent) (repeats : RepeatRule) (rs : List (Request κ)) :
    ∃ u, t.serve repeats rs = some u ∧ u.Consistent ∧ t.Extends u := by
  induction rs generalizing t with
  | nil => exact ⟨t, rfl, h, .refl t⟩
  | cons r rs ih =>
    obtain ⟨u, hu, hcons, hext⟩ := h.apply repeats r
    obtain ⟨v, hv, hcons', hext'⟩ := ih hcons
    refine ⟨v, ?_, hcons', hext.trans hext'⟩
    rw [serve_cons, hu]
    exact hv

/-! ### Requests that only change columns -/

def Request.Modifies : Request κ → Prop
  | modify _ _ => True
  | _ => False

theorem resembles_serve {u : Tables κ} {repeats : RepeatRule} {rs : List (Request κ)}
    (hrs : ∀ r ∈ rs, r.Modifies) (hu : t.serve repeats rs = some u) : t.Resembles u := by
  induction rs generalizing t with
  | nil =>
    cases hu
    exact .refl _
  | cons r rs ih =>
    cases r with
    | modify k f =>
      rw [serve_cons] at hu
      exact (resembles_modify f).trans (ih (fun r hr => hrs r (List.mem_cons_of_mem _ hr)) hu)
    | register | sweep => exact (hrs _ List.mem_cons_self).elim

end Tables
end EntityWorld
