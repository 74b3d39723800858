/-
# Quoted text in descriptions

A description shows a text between quotes. What would end or blur it there is
escaped: quotes and backslashes, and what has no shape of its own, that is
invisible characters, characters that combine with the one before them, and code
points that are not assigned.

Key definitions: `Text.isShapeless`, `Text.escape`, `Text.quoted`.
-/
import EntityWorld.Text.Combining
import EntityWorld.Text.Invisible
import EntityWorld.Text.Unassigned

namespace EntityWorld.Text

/-- Whether a character is in one of some closed ranges. -/
def isWithin (ranges : List (Nat × Nat)) (c : Char) : Bool :=
  ranges.any fun (low, high) => low ≤ c.toNat && c.toNat ≤ high

/-- Whether a character has no shape of its own. -/
def isShapeless (c : Char) : Bool :=
  isWithin invisible c || isWithin combining c || isWithin unassigned c

/-- A character as it stands between quotes. One without a shape is written as its code
point, in hexadecimal. -/
def escape (c : Char) : String :=
  if c == '"' then "\\\""
  else if c == '\\' then "\\\\"
  else if c == '\n' then "\\n"
  else if c == '\r' then "\\r"
  else if c == '\t' then "\\t"
  else if c == '\x00' then "\\0"
  else if isShapeless c then "\\u\x7b" ++ String.ofList (Nat.toDigits 16 c.toNat) ++ "\x7d"
  else c.toString

/-- Text between quotes. -/
def quoted (s : String) : String := "\"" ++ String.join (s.toList.map escape) ++ "\""

end EntityWorld.Text
