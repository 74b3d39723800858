/-
# Labels: entities by name

A label is a name with a number, and may be bound to an entity. Numbers are
given in order from zero and a label is never taken back; binding a label again
moves it. Binding does not ask whether the entity is alive.

Key definitions: `Labels.create`, `Labels.bind`, `Labels.unbind`,
`Labels.target?`, `Labels.labelOf?`. Key theorems: `Labels.target?_of_bind`,
`Labels.target?_unbind`.
-/
import EntityWorld.Error

namespace EntityWorld

structure Label where
  name : String
  target : Option Handle := none
deriving DecidableEq, Inhabited

/-- The labels in the order of their numbers. -/
structure Labels where
  entries : Array Label := #[]
deriving DecidableEq, Inhabited

namespace Labels

def size (l : Labels) : Nat := l.entries.size

def isEmpty (l : Labels) : Bool := l.entries.isEmpty

/-- The number of a name. -/
def id? (l : Labels) (name : String) : Option UInt32 :=
  (l.entries.findIdx? (·.name == name)).map UInt32.ofNat

/-- The name of a number. -/
def name? (l : Labels) (id : UInt32) : Option String := l.entries[id.toNat]?.map (·.name)

/-- The entity a label is bound to. -/
def target? (l : Labels) (id : UInt32) : Option Handle := l.entries[id.toNat]?.bind (·.target)

/-- The entity that the label of a name is bound to. -/
def targetOf? (l : Labels) (name : String) : Option Handle := (l.id? name).bind l.target?

/-- The first label bound to an entity. -/
def labelOf? (l : Labels) (e : Handle) : Option UInt32 :=
  (l.entries.findIdx? (·.target == some e)).map UInt32.ofNat

/-- A new label, bound to nothing. -/
def create (name : String) : EStateM LabelError Labels UInt32 := fun l =>
  if (l.id? name).isSome then .error (.duplicateName name) l
  else .ok (UInt32.ofNat l.size) ⟨l.entries.push ⟨name, none⟩⟩

/-- Binds a label, also one that is bound already. -/
def bind (id : UInt32) (e : Handle) : EStateM LabelError Labels Unit := fun l =>
  if id.toNat < l.size then .ok () ⟨l.entries.modify id.toNat ({ · with target := some e })⟩
  else .error (.unknown id) l

/-- A new label bound to an entity. -/
def createAndBind (name : String) (e : Handle) : EStateM LabelError Labels UInt32 := do
  let id ← create name
  bind id e
  return id

/-- Undoes all bindings to an entity. -/
def unbind (l : Labels) (e : Handle) : Labels :=
  ⟨l.entries.map fun x => if x.target = some e then { x with target := none } else x⟩

/-- The number of labels bound to an entity. -/
def bindingCount (l : Labels) (e : Handle) : Nat := l.entries.countP (·.target == some e)

/-! ### What the operations do to the bindings -/

theorem target?_unbind (l : Labels) (e : Handle) (id : UInt32) :
    (l.unbind e).target? id = (l.target? id).filter (· ≠ e) := by
  simp only [target?, unbind, Array.getElem?_map]
  cases l.entries[id.toNat]? with
  | none => rfl
  | some x =>
    by_cases h : x.target = some e
    · simp [h, Option.filter]
    · cases ht : x.target <;> simp_all [Option.filter]

@[simp] theorem size_unbind (l : Labels) (e : Handle) : (l.unbind e).size = l.size := by
  simp [size, unbind]

@[simp] theorem name?_unbind (l : Labels) (e : Handle) (id : UInt32) :
    (l.unbind e).name? id = l.name? id := by
  simp only [name?, unbind, Array.getElem?_map]
  cases l.entries[id.toNat]? with
  | none => rfl
  | some x => simp only [Option.map_some]; split <;> rfl

theorem target?_of_bind {l l' : Labels} {id : UInt32} {e : Handle} (h : bind id e l = .ok () l')
    (j : UInt32) : l'.target? j = if j = id then some e else l.target? j := by
  unfold bind at h
  split at h
  · next hid =>
    simp only [EStateM.Result.ok.injEq, true_and] at h
    subst h
    simp only [target?, Array.getElem?_modify]
    by_cases hj : j = id
    · subst hj
      have hlt : j.toNat < l.entries.size := hid
      simp [Array.getElem?_eq_getElem hlt]
    · have : id.toNat ≠ j.toNat := fun hn => hj (UInt32.toNat_inj.mp hn.symm)
      simp [hj, this]
  · simp at h

end Labels
end EntityWorld
