/-
# Families of component types

A world is built over a family of component types: each kind `k` of the family
has a type of values and a name. Kinds may share a name; a world then takes
only one of them. The stock kinds can be put in front of any family.

Key definitions: `Family`, `Family.tag`, `Stocked`.
-/
import EntityWorld.Record.Particle
import EntityWorld.Record.Star
import EntityWorld.Record.Transform
import EntityWorld.Record.UITransform

namespace EntityWorld

/-- A family of component types. -/
class Family (κ : Type) where
  /-- The type of the values of a kind. -/
  Value : κ → Type
  typeName : κ → String

export Family (Value typeName)

/-- The tag of a kind is that of its name. -/
def tagOf {κ : Type} [Family κ] (k : κ) : TypeTag := TypeTag.ofName (typeName k)

/-- The stock kinds and those of another family. -/
inductive Stocked (κ : Type) where
  | transform
  | uiTransform
  | particle
  | star
  | custom (k : κ)
deriving DecidableEq

instance {κ : Type} [Family κ] : Family (Stocked κ) where
  Value
    | .transform => Transform
    | .uiTransform => UITransform
    | .particle => Particle
    | .star => Star
    | .custom k => Value k
  typeName
    | .transform => "Transform"
    | .uiTransform => "UITransform"
    | .particle => "Particle"
    | .star => "Star"
    | .custom k => typeName k

end EntityWorld
