import PosDictionary.Decimal.Layout
import PosDictionary.Text.Quoted

/-!
# Why a JSON text cannot be read

A text may be no JSON, it may end too early, or it may be JSON that does not have the shape that
was asked for. The last is a `Mismatch`, which has a wording of its own.
-/

namespace PosDictionary.Json

/-- What stands in a text where something else was expected. -/
inductive Found where
  | null
  | boolean (value : Bool)
  | integer (value : Int)
  | decimal (value : Float)
  | string (value : String)
  | sequence
  | map

/-- The wording of what was found. -/
def Found.describe : Found → String
  | .null => "null"
  | .boolean value => s!"boolean `{value}`"
  | .integer value => s!"integer `{value}`"
  | .decimal value => "floating point `" ++ Decimal.ofFloat value ++ "`"
  | .string value => "string " ++ Text.quoted value
  | .sequence => "sequence"
  | .map => "map"

/-- How a text differs from the shape that was asked for. -/
inductive Mismatch where
  /-- Something of another type stands where `expected` should. -/
  | wrongType (found : Found) (expected : String)
  /-- Something of the right type has a value that `expected` cannot have. -/
  | wrongValue (found : Found) (expected : String)
  /-- A list has `length` items, `expected` needs more. -/
  | wrongLength (length : Nat) (expected : String)
  /-- An object lacks a field. -/
  | missingField (name : String)
  /-- An object has a field twice. -/
  | duplicateField (name : String)

/-- The wording of a mismatch. -/
def Mismatch.message : Mismatch → String
  | .wrongType found expected => s!"invalid type: {found.describe}, expected {expected}"
  | .wrongValue found expected => s!"invalid value: {found.describe}, expected {expected}"
  | .wrongLength length expected => s!"invalid length {length}, expected {expected}"
  | .missingField name => s!"missing field `{name}`"
  | .duplicateField name => s!"duplicate field `{name}`"

/-- Why a text cannot be read. -/
inductive ReadError where
  /-- The text is no JSON. -/
  | malformed
  /-- The text ends before its value does. -/
  | cutShort
  /-- The text does not have the shape that was asked for. -/
  | mismatch (cause : Mismatch)

/-- The text of an error. Only a mismatch has one. -/
def ReadError.message : ReadError → String
  | .malformed => ""
  | .cutShort => ""
  | .mismatch cause => cause.message

end PosDictionary.Json
