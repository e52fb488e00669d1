import PosDictionary.Text.Quoted
import PosDictionary.Text.Structured

/-!
# Errors of the dictionary

The ways in which an operation refuses what it was given. Each names the argument or the part of
the data that is to blame; `Error.message` is its wording, `Error.describe` its structure.
-/

namespace PosDictionary

/-- Why an operation did not succeed. -/
inductive Error where
  /-- An argument passed by the caller is not admissible. -/
  | invalidArgument (name message : String)
  /-- The operation makes no sense in the state it was called in. -/
  | invalidOperation (name : String)
  /-- Dictionary data is malformed in `element`. -/
  | invalidFormat (element message : String)
  /-- `element` would grow beyond `limit`. -/
  | capacityExceeded (element : String) (limit : Nat)
deriving DecidableEq, Repr

namespace Error

/-- The text of an error. -/
def message : Error → String
  | .invalidArgument name message => s!"invalid argument {name}: {message}"
  | .invalidOperation name => s!"invalid operation {name}"
  | .invalidFormat element message =>
    "invalid dictionary format for '" ++ element ++ "': " ++ message
  | .capacityExceeded element limit =>
    "capacity exceeded for '" ++ element ++ s!"' (limit {limit})"

/-- The error reports malformed dictionary data. -/
def isInvalidFormat : Error → Bool
  | .invalidFormat .. => true
  | _ => false

/-- The error reports an inadmissible argument. -/
def isInvalidArgument : Error → Bool
  | .invalidArgument .. => true
  | _ => false

/-- The kind of an error and its parts. -/
def describeKind : Error → String
  | .invalidArgument name message =>
    Text.structured "InvalidArgument"
      [("name", Text.quoted name), ("message", Text.quoted message)]
  | .invalidOperation name => Text.structured "InvalidOperation" [("name", Text.quoted name)]
  | .invalidFormat element message =>
    Text.structured "InvalidFormat"
      [("element", Text.quoted element), ("message", Text.quoted message)]
  | .capacityExceeded element limit =>
    Text.structured "CapacityExceeded" [("element", Text.quoted element), ("limit", s!"{limit}")]

/-- The structure of an error. -/
def describe (e : Error) : String :=
  Text.wrapped "Error" e.describeKind

end Error

/-! ## Checks -/

/-- Refuses the argument `name` unless `holds`, stating the `condition` that failed. -/
def checkArgument (holds : Bool) (name condition : String) : Except Error Unit :=
  if holds then .ok () else .error (.invalidArgument name condition)

/-- Refuses data for the sake of `element` unless `holds`, stating the `condition` that failed. -/
def checkFormat (holds : Bool) (element condition : String) : Except Error Unit :=
  if holds then .ok () else .error (.invalidFormat element condition)

end PosDictionary
