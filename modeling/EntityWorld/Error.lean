/-
# What can go wrong

Every failing operation names its cause by a constructor below. The wording is
in one `message` function per type; an error that only passes on the cause of
another one has that cause's wording.

Key definitions: `HandleError`, `LabelError`, `PayloadError`, `WorldError`,
`SnapshotError`.
-/
import EntityWorld.Handle
import EntityWorld.TypeTag

namespace EntityWorld

inductive HandleError where
  /-- The handle's entity is gone, or never was. -/
  | notAlive (e : Handle)
  /-- The slot asked for has an occupant. -/
  | alreadyAlive (index : UInt32)
  /-- The slot asked for may not be opened. -/
  | outOfRange (index : UInt32)
  /-- A new slot is needed, and there is no index left for it. -/
  | exhausted
deriving DecidableEq

inductive LabelError where
  | duplicateName (name : String)
  | unknown (id : UInt32)
deriving DecidableEq

inductive PayloadError where
  | tooShort (expected actual : Nat)
deriving DecidableEq

inductive WorldError where
  | notRegistered (name : String)
  | alreadyRegistered (name : String)
  /-- The type `name` hashes to the tag of the registered type `existing`. -/
  | tagCollision (name existing : String) (tag : TypeTag)
  | handle (cause : HandleError)
  | label (cause : LabelError)
deriving DecidableEq

inductive SnapshotError where
  /-- No type that takes part in snapshots has the tag. -/
  | unknownTag (tag : TypeTag)
  | payload (index : UInt32) (cause : PayloadError)
  | handle (cause : HandleError)
  | world (cause : WorldError)
deriving DecidableEq

def HandleError.message : HandleError → String
  | notAlive e => e.display ++ " is not alive"
  | alreadyAlive i => "entity index " ++ i.toNat.repr ++ " is already alive"
  | outOfRange i => "entity index " ++ i.toNat.repr ++ " is out of range"
  | exhausted => "entity index space exhausted"

def LabelError.message : LabelError → String
  | duplicateName name => "tag name `" ++ name ++ "` already exists"
  | unknown id => "tag " ++ id.toNat.repr ++ " does not exist"

def PayloadError.message : PayloadError → String
  | tooShort expected actual =>
    "payload too short: expected " ++ expected.repr ++ " bytes, got " ++ actual.repr

def WorldError.message : WorldError → String
  | notRegistered name => "component type `" ++ name ++ "` is not registered"
  | alreadyRegistered name => "component type `" ++ name ++ "` is already registered"
  | tagCollision name existing tag =>
    "component type `" ++ name ++ "` collides with `" ++ existing ++ "` on tag " ++ tag.describe
  | handle cause => cause.message
  | label cause => cause.message

def SnapshotError.message : SnapshotError → String
  | unknownTag tag => "no component type registered for tag " ++ tag.describe
  | payload index cause => "entity index " ++ index.toNat.repr ++ ": " ++ cause.message
  | handle cause => cause.message
  | world cause => cause.message

end EntityWorld
