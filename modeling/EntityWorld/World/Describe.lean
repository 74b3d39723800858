/-
# Worlds in words

The description of a world shows its settings, slots, kinds, labels and version.

Key definitions: `Labels.describe`, `World.describe`.
-/
import EntityWorld.Text.Quoted
import EntityWorld.World.Basic

namespace EntityWorld

/-- The labels with their fields named, numbers ascending. -/
def Labels.describe (l : Labels) : String :=
  let entries := l.entries.toList.zipIdx
  let names := entries.map fun (x, i) => Text.quoted x.name ++ ": " ++ i.repr
  let ids := entries.map fun (x, i) => i.repr ++ ": " ++ Text.quoted x.name
  let bindings := entries.filterMap fun (x, i) =>
    x.target.map fun e => i.repr ++ ": " ++ e.describe
  "TagRegistry \x7b name_to_id: " ++ Text.braced names ++ ", id_to_name: " ++ Text.braced ids
    ++ ", bindings: " ++ Text.braced bindings ++ ", next_id: " ++ l.size.repr ++ " \x7d"

/-- The world with its fields named. -/
def World.describe {κ : Type} [Family κ] (w : World κ) : String :=
  "Registry \x7b config: " ++ w.settings.describe ++ ", entities: " ++ w.pool.describe
    ++ ", components: " ++ Text.bracketed (w.registrations.map fun r => Text.quoted r.name)
    ++ ", tags: " ++ w.labels.describe ++ ", version: " ++ w.journal.now.repr ++ " \x7d"

end EntityWorld
