/-
# Three tables of labels

Labels may be kept in three tables, each with a key of its own, and a counter: the
number of a name, the name of a number, the entity that a number is bound to, and the
number that comes next. To make a label is to write to the first two, to bind one asks
the second and writes to the third, and nothing but these writes keeps them in step.

Labels in one list have their places for numbers, so there is nothing to keep in step.
Asked the same, in whatever order, tables and list give the same answers, and what is
looked up in the tables is what is found in the list (`LabelTables.Describes`). This
holds as long as numbers do not start over: a number that is given out twice would
overwrite a name in the second table and none in the list.

The labels of a world are changed by such requests and by nothing else
(`World.labels_apply`, `World.labels_move`), so that a world may keep its labels in
tables (`World.describes_moves`).

Key definitions: `LabelTables`, `LabelTables.ask`, `LabelTables.Describes`,
`Operation.labelRequests`.
Key theorems: `LabelTables.Describes.ask`, `LabelTables.describes_askAll`,
`World.labels_apply`, `World.describes_moves`.
-/
import EntityWorld.Proofs.Naming
import Std.Data.ExtTreeMap
import Mathlib.Tactic

namespace EntityWorld

/-! ### Replies -/

namespace Labels

/-- What a request is answered: the number of the label that was made, that the label was
bound, how many bindings were undone, or why the request is refused. -/
inductive Reply where
  | made (id : UInt32)
  | bound
  | undone (count : Nat)
  | refused (cause : LabelError)
deriving DecidableEq

/-- A result as a reply and what it leaves. -/
def replied {σ α : Type} (grant : α → Reply) : EStateM.Result LabelError σ α → Reply × σ
  | .ok a s => (grant a, s)
  | .error c s => (.refused c, s)

/-- The reply to a request, and the labels after it. -/
def Request.ask : Request → Labels → Reply × Labels
  | create name, l => replied .made (Labels.create name l)
  | bind id e, l => replied (fun _ => .bound) (Labels.bind id e l)
  | createAndBind name e, l => replied .made (Labels.createAndBind name e l)
  | unbind e, l => (.undone (l.bindingCount e), l.unbind e)

/-- The replies to some requests, one after another, and what they leave. -/
def askAll {σ : Type} (ask : Request → σ → Reply × σ) : σ → List Request → List Reply × σ
  | s, [] => ([], s)
  | s, r :: rs =>
    let (a, s) := ask r s
    let (as, s) := askAll ask s rs
    (a :: as, s)

end Labels

open Labels (Request Reply replied askAll)

/-! ### Tables -/

/-- Labels by name, by number and by binding, and the number that comes next. -/
structure LabelTables where
  numbers : Std.ExtTreeMap String UInt32 := ∅
  names : Std.ExtTreeMap UInt32 String := ∅
  targets : Std.ExtTreeMap UInt32 Handle := ∅
  next : UInt32 := 0

namespace LabelTables

section LookUps

variable (t : LabelTables)

def id? (name : String) : Option UInt32 := t.numbers[name]?

def name? (id : UInt32) : Option String := t.names[id]?

def target? (id : UInt32) : Option Handle := t.targets[id]?

/-- The entity that the label of a name is bound to. -/
def targetOf? (name : String) : Option Handle := (t.id? name).bind t.target?

/-- The least number of the labels that are bound to an entity. -/
def labelOf? (e : Handle) : Option UInt32 :=
  ((t.targets.toList.filter fun x => x.2 == e).map (·.1)).min?

def size : Nat := t.names.size

def isEmpty : Bool := t.names.isEmpty

end LookUps

/-- Writes a new label to two tables. -/
def push (t : LabelTables) (name : String) : LabelTables :=
  { t with
    numbers := t.numbers.insert name t.next
    names := t.names.insert t.next name
    next := t.next + 1 }

/-- Writes a binding to the third, over the one that is there. -/
def rebind (t : LabelTables) (id : UInt32) (e : Handle) : LabelTables :=
  { t with targets := t.targets.insert id e }

/-- A new label, bound to nothing. -/
def create (name : String) : EStateM LabelError LabelTables UInt32 := fun t =>
  if t.numbers.contains name then .error (.duplicateName name) t else .ok t.next (t.push name)

/-- Binds a label, also one that is bound already. -/
def bind (id : UInt32) (e : Handle) : EStateM LabelError LabelTables Unit := fun t =>
  if t.names.contains id then .ok () (t.rebind id e) else .error (.unknown id) t

/-- A new label bound to an entity. Whether it is there is not asked again. -/
def createAndBind (name : String) (e : Handle) : EStateM LabelError LabelTables UInt32 := do
  let id ← create name
  modify (·.rebind id e)
  return id

/-- Undoes all bindings to an entity. The result is by how many they are fewer. -/
def unbind (t : LabelTables) (e : Handle) : Nat × LabelTables :=
  let kept := t.targets.filter fun _ e' => e' ≠ e
  (t.targets.size - kept.size, { t with targets := kept })

/-- The reply to a request, and the tables after it. -/
def ask : Request → LabelTables → Reply × LabelTables
  | .create name, t => replied .made (t.create name)
  | .bind id e, t => replied (fun _ => .bound) (t.bind id e)
  | .createAndBind name e, t => replied .made (t.createAndBind name e)
  | .unbind e, t => (.undone (t.unbind e).1, (t.unbind e).2)

end LabelTables

/-! ### Labels and what they are asked -/

namespace Labels

variable {l l' : Labels} {name : String} {id : UInt32}

theorem replied_snd {σ α : Type} (grant : α → Reply) (act : EStateM LabelError σ α) (s : σ) :
    (replied grant (act s)).2 = after act s := by
  unfold after
  cases act s <;> rfl

/-- A request does to labels the same whether it is replied to or not. -/
theorem ask_snd (r : Request) (l : Labels) : (r.ask l).2 = r.apply l := by
  cases r with
  | create | bind | createAndBind => exact replied_snd ..
  | unbind => rfl

theorem serve_append (rs rs' : List Request) (l : Labels) :
    l.serve (rs ++ rs') = (l.serve rs).serve rs' := List.foldl_append

theorem askAll_cons {σ : Type} (ask : Request → σ → Reply × σ) (s : σ) (r : Request)
    (rs : List Request) : askAll ask s (r :: rs) =
      ((ask r s).1 :: (askAll ask (ask r s).2 rs).1, (askAll ask (ask r s).2 rs).2) := rfl

theorem askAll_snd (rs : List Request) (l : Labels) :
    (askAll Request.ask l rs).2 = l.serve rs := by
  induction rs generalizing l with
  | nil => rfl
  | cons r rs ih => exact (ih _).trans (congrArg (serve · rs) (ask_snd r l))

theorem length_numbered (l : Labels) : l.numbered.length = l.size := by simp [numbered, size]

/-- No label is lost. -/
theorem size_le_serve (rs : List Request) (l : Labels) : l.size ≤ (l.serve rs).size := by
  rw [← length_numbered, ← length_numbered, numbered_serve, List.length_append]
  exact Nat.le_add_right _ _

/-! ### Labels by number -/

/-- What is found of a name is told by the names. -/
theorem id?_of_numbered (h : l'.numbered = l.numbered) (name : String) :
    l'.id? name = l.id? name := by
  have hnames : ∀ l : Labels, l.id? name =
      ((l.numbered.map (·.2)).findIdx? (· == name)).map UInt32.ofNat := fun l => by
    rw [map_snd_numbered, List.findIdx?_map, ← List.findIdx?_toArray]
    rfl
  rw [hnames, hnames, h]

theorem name?_of_numbered (h : l'.numbered = l.numbered) (id : UInt32) :
    l'.name? id = l.name? id := by
  have hnames : ∀ l : Labels, l.name? id = (l.numbered.map (·.2))[id.toNat]? := fun l => by
    rw [map_snd_numbered, List.getElem?_map, Array.getElem?_toList]
    rfl
  rw [hnames, hnames, h]

/-- A new name is found under the number that comes next. -/
theorem id?_push (h : ¬ (l.id? name).isSome) (name' : String) :
    id? ⟨l.entries.push ⟨name, none⟩⟩ name' =
      if name' = name then some (UInt32.ofNat l.size) else l.id? name' := by
  unfold id? at h ⊢
  rw [Array.findIdx?_push]
  by_cases heq : name' = name
  · subst heq
    rw [Option.isSome_map, Option.not_isSome_iff_eq_none] at h
    rw [h, if_pos (beq_self_eq_true _), if_pos rfl]
    rfl
  · rw [if_neg fun hbeq => heq (beq_iff_eq.mp hbeq).symm, if_neg heq, Option.or_none]

theorem name?_push (hl : l.size < UInt32.size) (id : UInt32) :
    name? ⟨l.entries.push ⟨name, none⟩⟩ id =
      if id = UInt32.ofNat l.size then some name else l.name? id := by
  have hnext : (UInt32.ofNat l.size).toNat = l.size := UInt32.toNat_ofNat_of_lt' hl
  have hlast : id.toNat = l.entries.size ↔ id = UInt32.ofNat l.size := by
    rw [← UInt32.toNat_inj, hnext, size]
  unfold name?
  rw [Array.getElem?_push]
  simp only [hlast]
  split <;> rfl

theorem mem_numbers_iff (hl : l.size < UInt32.size) :
    id ∈ l.numbered.map (·.1) ↔ id.toNat < l.size := by
  rw [map_fst_numbered, List.mem_map]
  constructor
  · rintro ⟨k, hk, rfl⟩
    rw [toNat_ofNat_of_lt hl (List.mem_range.mp hk)]
    exact List.mem_range.mp hk
  · exact fun hlt => ⟨id.toNat, List.mem_range.mpr hlt, UInt32.ofNat_toNat⟩

theorem lt_size_of_target? (h : (l.target? id).isSome) : id.toNat < l.size := by
  rw [target?, Option.isSome_bind] at h
  by_contra hle
  rw [Array.getElem?_eq_none (Nat.le_of_not_lt hle)] at h
  cases h

end Labels

/-! ### Tables that describe a list -/

namespace LabelTables

open Std (TransOrd LawfulEqOrd ExtTreeMap)

section Maps

variable {α β : Type} [Ord α] [TransOrd α] [LawfulEqOrd α]

theorem getElem?_insert_eq_ite [DecidableEq α] (m : ExtTreeMap α β) (a b : α) (v : β) :
    (m.insert a v)[b]? = if b = a then some v else m[b]? := by
  rw [ExtTreeMap.getElem?_insert]
  exact if_congr (Std.LawfulEqCmp.compare_eq_iff_eq.trans eq_comm) rfl rfl

/-- A table has as many entries as there are keys. -/
theorem size_eq_length {m : ExtTreeMap α β} {as : List α} (has : as.Nodup)
    (hmem : ∀ a, a ∈ as ↔ m[a]?.isSome) : m.size = as.length := by
  rw [← ExtTreeMap.length_keys]
  refine List.Perm.length_eq ?_
  rw [List.perm_ext_iff_of_nodup ExtTreeMap.nodup_keys has]
  intro a
  rw [ExtTreeMap.mem_keys, ExtTreeMap.mem_iff_isSome_getElem?, hmem]

end Maps

/-- What is looked up in the tables is what is found in the list. -/
structure Describes (t : LabelTables) (l : Labels) : Prop where
  id?_eq (name : String) : t.id? name = l.id? name
  name?_eq (id : UInt32) : t.name? id = l.name? id
  target?_eq (id : UInt32) : t.target? id = l.target? id
  next_eq : t.next = UInt32.ofNat l.size

namespace Describes

variable {t : LabelTables} {l l' : Labels} {name : String} {id : UInt32} {e : Handle}

theorem empty : Describes {} {} where
  id?_eq _ := by simp [LabelTables.id?, Labels.id?]
  name?_eq _ := by simp [LabelTables.name?, Labels.name?]
  target?_eq _ := by simp [LabelTables.target?, Labels.target?]
  next_eq := rfl

/-! ### Look-ups -/

section LookUps

variable (h : t.Describes l)
include h

theorem contains_numbers : t.numbers.contains name = (l.id? name).isSome := by
  rw [ExtTreeMap.contains_eq_isSome_getElem?, ← h.id?_eq]
  rfl

theorem contains_names : t.names.contains id ↔ id.toNat < l.size := by
  have hname : t.names[id]? = l.name? id := h.name?_eq id
  rw [ExtTreeMap.contains_eq_isSome_getElem?, hname, Option.isSome_iff_ne_none, ne_eq,
    Labels.name?_eq_none_iff, Nat.not_le]

theorem targetOf?_eq (name : String) : t.targetOf? name = l.targetOf? name := by
  unfold targetOf? Labels.targetOf?
  rw [h.id?_eq, funext h.target?_eq]

variable (hl : l.size < UInt32.size)
include hl

theorem size_eq : t.size = l.size := by
  have hmem : ∀ id, id ∈ l.numbered.map (·.1) ↔ t.names[id]?.isSome := fun id => by
    rw [Labels.mem_numbers_iff hl, ← h.contains_names, ExtTreeMap.contains_eq_isSome_getElem?]
  calc t.size = (l.numbered.map (·.1)).length := size_eq_length (Labels.nodup_numbers hl) hmem
    _ = l.size := by rw [Labels.map_fst_numbered, List.length_map, List.length_range]

theorem isEmpty_eq : t.isEmpty = l.isEmpty := by
  have hsize : t.names.size = l.entries.size := h.size_eq hl
  rw [isEmpty, ExtTreeMap.isEmpty_eq_size_beq_zero, hsize]
  rfl

theorem size_targets : t.targets.size = l.bound.length := by
  have hbound : l.bound = (l.numbered.map (·.1)).filter fun id => (l.target? id).isSome := by
    rw [Labels.map_fst_numbered, Labels.bound]
  rw [hbound]
  refine size_eq_length ((Labels.nodup_numbers hl).filter _) fun id => ?_
  have htarget : t.targets[id]? = l.target? id := h.target?_eq id
  rw [List.mem_filter, htarget, and_iff_right_iff_imp, Labels.mem_numbers_iff hl]
  exact Labels.lt_size_of_target?

/-- The least number of those that are bound to an entity is that of the first label. -/
theorem labelOf?_eq (e : Handle) : t.labelOf? e = l.labelOf? e := by
  refine Option.ext fun id => ?_
  have hmem : ∀ id, id ∈ (t.targets.toList.filter fun x => x.2 == e).map (·.1) ↔
      l.target? id = some e := by
    intro id
    rw [← h.target?_eq, target?, ← ExtTreeMap.mem_toList_iff_getElem?_eq_some]
    simp
  unfold labelOf?
  rw [List.min?_eq_some_iff, Labels.labelOf?_eq_some_iff hl, hmem]
  simp only [hmem]

end LookUps

/-! ### Requests -/

theorem push (h : t.Describes l) (hl : l.size < UInt32.size) (hn : ¬ (l.id? name).isSome) :
    (t.push name).Describes ⟨l.entries.push ⟨name, none⟩⟩ where
  id?_eq name' := by
    rw [Labels.id?_push hn, ← h.next_eq, ← h.id?_eq]
    exact getElem?_insert_eq_ite ..
  name?_eq id := by
    rw [Labels.name?_push hl, ← h.next_eq, ← h.name?_eq]
    exact getElem?_insert_eq_ite ..
  target?_eq id := (h.target?_eq id).trans (Labels.target?_push name id).symm
  next_eq := by
    rw [Labels.size, Array.size_push, UInt32.ofNat_add, ← Labels.size, ← h.next_eq]
    rfl

theorem rebind (h : t.Describes l) (hb : Labels.bind id e l = .ok () l') :
    (t.rebind id e).Describes l' where
  id?_eq name := by
    rw [Labels.id?_of_numbered (Labels.numbered_of_bind hb)]
    exact h.id?_eq name
  name?_eq i := by
    rw [Labels.name?_of_numbered (Labels.numbered_of_bind hb)]
    exact h.name?_eq i
  target?_eq i := by
    rw [Labels.target?_of_bind hb, ← h.target?_eq]
    exact getElem?_insert_eq_ite ..
  next_eq := by
    rw [← Labels.length_numbered, Labels.numbered_of_bind hb, Labels.length_numbered]
    exact h.next_eq

theorem unbind (h : t.Describes l) (e : Handle) : (t.unbind e).2.Describes (l.unbind e) where
  id?_eq name := (h.id?_eq name).trans (Labels.id?_unbind l e name).symm
  name?_eq i := (h.name?_eq i).trans (Labels.name?_unbind l e i).symm
  target?_eq i := by
    rw [Labels.target?_unbind, ← h.target?_eq]
    exact ExtTreeMap.getElem?_filter' (t := t.targets)
  next_eq := by
    rw [Labels.size_unbind]
    exact h.next_eq

/-- As many bindings are gone as there were to the entity. -/
theorem unbind_fst (h : t.Describes l) (hl : l.size < UInt32.size) (e : Handle) :
    (t.unbind e).1 = l.bindingCount e := by
  have hsize : (l.unbind e).size < UInt32.size := by rwa [Labels.size_unbind]
  have hbefore := h.size_targets hl
  have hafter := (h.unbind e).size_targets hsize
  have hcount := Labels.length_bound_unbind hl e
  change t.targets.size - (t.unbind e).2.targets.size = l.bindingCount e
  omega

theorem create_of_isSome (h : t.Describes l) (hn : (l.id? name).isSome) :
    t.create name = .error (.duplicateName name) t := if_pos (h.contains_numbers.trans hn)

theorem create_of_not_isSome (h : t.Describes l) (hn : ¬ (l.id? name).isSome) :
    t.create name = .ok t.next (t.push name) :=
  if_neg fun hmem => hn (h.contains_numbers.symm.trans hmem)

/-- The label that is made is there, so that it need not be looked up to be bound. -/
theorem createAndBind_of_not_isSome (h : t.Describes l) (hn : ¬ (l.id? name).isSome)
    (e : Handle) : t.createAndBind name e = .ok t.next ((t.push name).rebind t.next e) :=
  bind_of_ok (h.create_of_not_isSome hn)

/-- A request gets the same reply from the tables and from the list, and leaves tables
that describe the list. -/
theorem ask (h : t.Describes l) (hl : l.size < UInt32.size) (r : Request) :
    (LabelTables.ask r t).1 = (r.ask l).1 ∧
      (LabelTables.ask r t).2.Describes (r.ask l).2 := by
  cases r with
  | create name =>
    rw [LabelTables.ask, Request.ask]
    by_cases hn : (l.id? name).isSome
    · rw [h.create_of_isSome hn, Labels.create_of_isSome hn]
      exact ⟨rfl, h⟩
    · rw [h.create_of_not_isSome hn, Labels.create_of_not_isSome hn]
      exact ⟨congrArg Reply.made h.next_eq, h.push hl hn⟩
  | bind id e =>
    rw [LabelTables.ask, Request.ask]
    by_cases hid : id.toNat < l.size
    · have ht : t.bind id e = .ok () (t.rebind id e) := if_pos (h.contains_names.mpr hid)
      obtain ⟨l', hb⟩ : ∃ l', Labels.bind id e l = .ok () l' := ⟨_, if_pos hid⟩
      rw [ht, hb]
      exact ⟨rfl, h.rebind hb⟩
    · have ht : t.bind id e = .error (.unknown id) t :=
        if_neg fun hmem => hid (h.contains_names.mp hmem)
      have hb : Labels.bind id e l = .error (.unknown id) l := if_neg hid
      rw [ht, hb]
      exact ⟨rfl, h⟩
  | createAndBind name e =>
    rw [LabelTables.ask, Request.ask]
    by_cases hn : (l.id? name).isSome
    · have ht : t.createAndBind name e = .error (.duplicateName name) t :=
        bind_of_error (h.create_of_isSome hn)
      rw [ht, Labels.createAndBind_of_isSome hn]
      exact ⟨rfl, h⟩
    · obtain ⟨l', hb, hc⟩ := Labels.exists_createAndBind hn e
      rw [← h.next_eq] at hb
      rw [h.createAndBind_of_not_isSome hn, hc]
      exact ⟨congrArg Reply.made h.next_eq, (h.push hl hn).rebind hb⟩
  | unbind e => exact ⟨congrArg Reply.undone (h.unbind_fst hl e), h.unbind e⟩

/-- Requests in a row get the same replies, too. -/
theorem askAll (h : t.Describes l) (rs : List Request)
    (hfew : (l.serve rs).size < UInt32.size) :
    (Labels.askAll LabelTables.ask t rs).1 = (Labels.askAll Request.ask l rs).1 ∧
      (Labels.askAll LabelTables.ask t rs).2.Describes (l.serve rs) := by
  induction rs generalizing t l with
  | nil => exact ⟨rfl, h⟩
  | cons r rs ih =>
    obtain ⟨hreply, hnext⟩ := h.ask ((Labels.size_le_serve (r :: rs) l).trans_lt hfew) r
    rw [Labels.ask_snd] at hnext
    obtain ⟨hreplies, hend⟩ := ih hnext hfew
    refine ⟨?_, hend⟩
    rw [Labels.askAll_cons, Labels.askAll_cons, hreply, hreplies, Labels.ask_snd]

end Describes

/-- **Three tables are as good as one list.** Asked the same, in whatever order, from when
there is no label and as long as numbers do not start over, tables and list reply alike,
and whatever is looked up in the tables is what is found in the list. -/
theorem describes_askAll (rs : List Request) (hfew : (Labels.serve {} rs).size < UInt32.size) :
    let t := (askAll ask {} rs).2
    let l := (askAll Request.ask {} rs).2
    (askAll ask {} rs).1 = (askAll Request.ask {} rs).1 ∧ t.Describes l ∧ t.size = l.size ∧
      t.isEmpty = l.isEmpty ∧ (∀ name, t.targetOf? name = l.targetOf? name) ∧
      ∀ e, t.labelOf? e = l.labelOf? e := by
  obtain ⟨hreplies, h⟩ := Describes.empty.askAll rs hfew
  rw [Labels.askAll_snd]
  exact ⟨hreplies, h, h.size_eq hfew, h.isEmpty_eq hfew, h.targetOf?_eq, h.labelOf?_eq hfew⟩

example : (askAll ask {} [.create "lamp", .createAndBind "moth" ⟨0, 0⟩, .create "lamp",
    .bind 0 ⟨0, 0⟩, .bind 2 ⟨0, 0⟩, .unbind ⟨0, 0⟩]).1 =
    [.made 0, .made 1, .refused (.duplicateName "lamp"), .bound, .refused (.unknown 2),
      .undone 2] := by decide +kernel

end LabelTables

/-! ### The labels of a world -/

variable {κ : Type} [Family κ]

/-- What an operation asks of the labels of a world. -/
def Operation.labelRequests (w : World κ) : Operation κ → List Request
  | kill e => if w.isAlive e then [.unbind e] else []
  | nameLabel name => [.create name]
  | bindLabel id e => if w.isAlive e then [.bind id e] else []
  | createLabel name e => if w.isAlive e then [.createAndBind name e] else []
  | unbindLabels e => [.unbind e]
  | _ => []

/-- Whoever takes the labels out of the hands of a world puts requests to them. -/
def Move.AsksLabels : Move κ → Prop
  | access (.labels f) => ∃ r : Request, f = r.apply
  | _ => True

variable [DecidableEq κ]

/-- An operation that asks nothing of the labels leaves them as they are. -/
theorem Outcome.labels_eq {w w' : World κ} {op : Operation κ} {xs : List Event}
    (h : Outcome w op xs w') (hw : w.pool.WellFormed) (hop : op.labelRequests w = []) :
    w'.labels = w.labels := by
  cases h with
  | kill hk =>
    have he : w.isAlive _ := (SlotPool.leaves_of_kill hk).1
    cases (if_pos he).symm.trans hop
  | nameLabel | unbindLabels => cases hop
  | bindLabel he | createLabel he => cases (if_pos he).symm.trans hop
  | restore hr => exact World.labels_replay hw hr
  | _ => rfl

namespace World

/-- What an operation does to the labels is what it asks of them. -/
theorem labels_apply {w : World κ} (hw : w.pool.WellFormed) (op : Operation κ) :
    (op.apply w).labels = w.labels.serve (op.labelRequests w) := by
  cases op with
  | nameLabel | unbindLabels => rfl
  | kill e =>
    by_cases he : w.isAlive e
    · obtain ⟨pool, hk⟩ : ∃ pool, SlotPool.kill e w.pool = .ok () pool := ⟨_, if_pos he⟩
      have hkill := kill_of_ok hk
      rw [Operation.apply, after_of_ok hkill, labels_of_kill hkill, Operation.labelRequests,
        if_pos he]
      rfl
    · rw [apply_kill_of_not_isAlive he, Operation.labelRequests, if_neg he]
      rfl
  | bindLabel id e =>
    rw [Operation.apply, bindLabel, Change.after_onLabels, Operation.labelRequests]
    split <;> rfl
  | createLabel name e =>
    rw [Operation.apply, createLabel, Change.after_onLabels, Operation.labelRequests]
    split <;> rfl
  | _ => exact (Operation.outcome_apply hw _).labels_eq hw rfl

variable {w : World (Stocked κ)}

/-- A move changes the labels by requests, a tick by those of its operations. -/
theorem labels_move (hw : w.pool.WellFormed) {m : Move κ} (hm : m.AsksLabels) :
    (m.apply w).pool.WellFormed ∧ ∃ rs, (m.apply w).labels = w.labels.serve rs := by
  cases m with
  | access a =>
    refine ⟨pool_wellFormed_access hw a, ?_⟩
    cases a with
    | operate op => exact ⟨_, labels_apply hw op⟩
    | column k f => exact ⟨[], labels_modifyColumn k f⟩
    | labels f =>
      obtain ⟨r, rfl⟩ := hm
      exact ⟨[r], rfl⟩
    | journal f => exact ⟨[], rfl⟩
  | tick rules last expired dt =>
    let J (u : World (Stocked κ)) : Prop :=
      u.pool.WellFormed ∧ ∃ rs, u.labels = w.labels.serve rs
    have hJ : ∀ op : Operation (Stocked κ), ¬ op.Binds → ∀ u, J u → J (op.apply u) := by
      rintro op - u ⟨hu, rs, hrs⟩
      refine ⟨Change.keeps_row Change.pool_wellFormed (Change.row_apply op hu) hu, ?_⟩
      exact ⟨rs ++ op.labelRequests u, by rw [labels_apply hu, hrs, Labels.serve_append]⟩
    exact move_tick_of_closed hJ ⟨hw, [], rfl⟩ ..

theorem labels_moves (hw : w.pool.WellFormed) {ms : List (Move κ)} (hms : ∀ m ∈ ms, m.AsksLabels) :
    ∃ rs, (w.moves ms).labels = w.labels.serve rs := by
  induction ms generalizing w with
  | nil => exact ⟨[], rfl⟩
  | cons m ms ih =>
    obtain ⟨hnext, rs, hrs⟩ := labels_move hw (hms m List.mem_cons_self)
    obtain ⟨rs', hrs'⟩ := ih hnext fun m' hm' => hms m' (List.mem_cons_of_mem m hm')
    refine ⟨rs ++ rs', ?_⟩
    rw [Labels.serve_append, ← hrs]
    exact hrs'

/-- **A world may keep its labels in three tables.** Whatever happens to it, if who takes
the labels out of its hands only puts requests to them, there are requests that give its
labels, and the tables that are asked the same describe them. -/
theorem describes_moves {s : Settings} (hs : ofSettings? s = some w) {ms : List (Move κ)}
    (hms : ∀ m ∈ ms, m.AsksLabels) (hfew : (w.moves ms).labels.size < UInt32.size) :
    ∃ rs, (w.moves ms).labels = Labels.serve {} rs ∧
      (askAll LabelTables.ask {} rs).2.Describes (w.moves ms).labels := by
  obtain ⟨rs, hrs⟩ := labels_moves (wellFormed_of_ofSettings? hs).pool hms
  have hnone : w.labels = {} := by rw [eq_of_ofSettings? hs]
  rw [hnone] at hrs
  rw [hrs] at hfew ⊢
  exact ⟨rs, rfl, (LabelTables.Describes.empty.askAll rs hfew).2⟩

end World
end EntityWorld
