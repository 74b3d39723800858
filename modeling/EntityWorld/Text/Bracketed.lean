/-
# Lists and tables in descriptions

A description writes a list between square brackets and a table between braces,
their items separated by a comma and a blank.
-/
namespace EntityWorld.Text

/-- The items between square brackets. -/
def bracketed (items : List String) : String := "[" ++ ", ".intercalate items ++ "]"

/-- The entries between braces. -/
def braced (entries : List String) : String := "\x7b" ++ ", ".intercalate entries ++ "\x7d"

end EntityWorld.Text
