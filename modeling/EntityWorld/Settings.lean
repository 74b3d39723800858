/-
# Settings of a world

Which free slot is reused first, what a second registration of a type means,
how much room to set aside at the start and how far a peer may make the slot
space grow. The JSON form is written here (`Settings.toJson`); its reader is in
`EntityWorld.JsonText.Settings`.
-/
namespace EntityWorld

/-- Which free slot a new entity takes. -/
inductive ReuseOrder where
  /-- The slot freed last. -/
  | newestFirst
  /-- The slot freed first. -/
  | oldestFirst
deriving DecidableEq, Inhabited

/-- What registering a registered type means. -/
inductive RepeatRule where
  /-- The first registration stands. -/
  | accept
  /-- It is an error. -/
  | reject
deriving DecidableEq, Inhabited

structure Settings where
  reuse : ReuseOrder := .newestFirst
  repeats : RepeatRule := .accept
  /-- Slots to set room aside for. -/
  capacity : UInt64 := 0
  /-- Slots from this one on are never opened by request, only by spawning. -/
  slotLimit : UInt32 := 1048576
deriving DecidableEq, Inhabited

namespace ReuseOrder

/-- The word for the order in JSON. -/
def word : ReuseOrder → String
  | newestFirst => "lifo"
  | oldestFirst => "fifo"

def ofWord : String → Option ReuseOrder
  | "lifo" => some newestFirst
  | "fifo" => some oldestFirst
  | _ => none

/-- The word for the order in descriptions. -/
def describe : ReuseOrder → String
  | newestFirst => "Lifo"
  | oldestFirst => "Fifo"

end ReuseOrder

namespace RepeatRule

/-- The word for the rule in JSON. -/
def word : RepeatRule → String
  | accept => "ignore"
  | reject => "reject"

def ofWord : String → Option RepeatRule
  | "ignore" => some accept
  | "reject" => some reject
  | _ => none

/-- The word for the rule in descriptions. -/
def describe : RepeatRule → String
  | accept => "Ignore"
  | reject => "Reject"

end RepeatRule

namespace Settings

/-- The settings as a compact JSON object. -/
def toJson (s : Settings) : String :=
  "\x7b\"recycle\":\"" ++ s.reuse.word ++ "\",\"duplicate_registration\":\"" ++ s.repeats.word
    ++ "\",\"entity_capacity\":" ++ s.capacity.toNat.repr
    ++ ",\"max_entities\":" ++ s.slotLimit.toNat.repr ++ "\x7d"

/-- The settings with their fields named. -/
def describe (s : Settings) : String :=
  "RegistryConfig \x7b recycle: " ++ s.reuse.describe ++ ", duplicate_registration: "
    ++ s.repeats.describe ++ ", entity_capacity: " ++ s.capacity.toNat.repr
    ++ ", max_entities: " ++ s.slotLimit.toNat.repr ++ " \x7d"

end Settings
end EntityWorld
