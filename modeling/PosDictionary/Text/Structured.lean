/-!
# Texts of structured values

One shape for every value that is shown to a developer: `Name { field: value, other: value }`,
`Name(value)`, `[item, item]` and `{item, item}`. The parts are given as texts.
-/

namespace PosDictionary.Text

/-- The items one after the other, with `", "` between them. -/
def commaSeparated (items : List String) : String :=
  ", ".intercalate items

/-- The text of a value with named fields. -/
def structured (name : String) (fields : List (String × String)) : String :=
  let shown := fields.map fun (field, value) => field ++ ": " ++ value
  name ++ " \x7b " ++ commaSeparated shown ++ " \x7d"

/-- The text of a value with one part that has no name. -/
def wrapped (name value : String) : String :=
  name ++ "(" ++ value ++ ")"

/-- The text of a list. -/
def listed (items : List String) : String :=
  "[" ++ commaSeparated items ++ "]"

/-- The text of a set. -/
def braced (items : List String) : String :=
  "\x7b" ++ commaSeparated items ++ "\x7d"

end PosDictionary.Text
