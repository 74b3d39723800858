/-
# Values of known shape

What a reader accepts where it expects a number, a vector or a record. It is
lenient: a number may have any form that holds its value, a list of numbers may
be a blob, and a record may be the list of its fields or a table keyed by field
names or field positions. A table may have other entries too; a field that is
missing or given twice is refused. Where the number of items is fixed, a list has
just as many, while a blob may go on after them.

Key definitions: `Pack.Item.toNat?`, `Pack.Item.toSingle?`, `Pack.Item.items?`,
`Pack.Item.tuple?`, `Pack.Item.fields?`.
-/
import EntityWorld.Pack.Item

namespace EntityWorld.Pack.Item

/-- The natural number below a limit that a value is. -/
def toNat? (limit : Nat) : Item → Option Nat
  | natural n => if n < limit then some n else none
  | integer n => if 0 ≤ n ∧ n < limit then some n.toNat else none
  | _ => none

/-- The nearest single-precision number to a numeric value. -/
def toSingle? : Item → Option Single
  | natural n => some (.ofWord (UInt64.ofNat n))
  | integer n => some (.ofSigned (Int64.ofInt n))
  | single x => some x
  | double x => some x.toSingle
  | _ => none

/-- A byte of a blob as a value. -/
def ofByte (b : UInt8) : Item := natural b.toNat

/-- The items of a list, or the bytes of a blob. -/
def items? : Item → Option (List Item)
  | list items => some items
  | blob bytes => some (bytes.map ofByte)
  | _ => none

/-- The items of a list of `n`, or the first `n` bytes of a blob. -/
def tuple? (n : Nat) : Item → Option (List Item)
  | list items => if items.length = n then some items else none
  | blob bytes => if n ≤ bytes.length then some ((bytes.take n).map ofByte) else none
  | _ => none

/-- Which of the named fields a key stands for: by name, or by position. A key of
the right kind may stand for none; one of another kind is refused. -/
def position? (names : List String) : Item → Option (Option Nat)
  | text bytes | blob bytes => some (names.findIdx? fun name => name.toUTF8.toList == bytes)
  | natural n => some (if n < names.length then some n else none)
  | _ => none

/-- The value given for a position, if there is exactly one. -/
def unique? (entries : List (Option Nat × Item)) (i : Nat) : Option Item :=
  match entries.filter (·.1 == some i) with
  | [(_, value)] => some value
  | _ => none

/-- The fields of a record in the order of their names. -/
def fields? (names : List String) : Item → Option (List Item)
  | table entries => do
    let entries ← entries.mapM fun (key, value) => (key.position? names).map (·, value)
    (List.range names.length).mapM (unique? entries)
  | item => item.tuple? names.length

end EntityWorld.Pack.Item
