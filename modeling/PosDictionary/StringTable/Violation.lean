import PosDictionary.Failure
import PosDictionary.Text.Utf8

/-!
# What makes a string table malformed

A stored string table has a header that counts its strings, an entry with offset and length for
each, and the strings, each followed by a zero byte. A `Violation` says which of these rules the
data breaks; `Violation.toError` is its wording.
-/

namespace PosDictionary

/-- A broken rule of the stored form of a string table. -/
inductive Violation where
  /-- The data is too short for the count of strings. -/
  | noCount
  /-- The data is too short for the entries that the count announces. -/
  | entriesCut
  /-- An entry points into the header or the entries. -/
  | offsetInHeader
  /-- A string or its terminator lies beyond the data. -/
  | endOutside
  /-- A string is not followed by a zero byte. -/
  | notTerminated
  /-- The string at `index` is no text. -/
  | notText (index : Nat) (cause : Utf8.Malformed)
  /-- A string does not come after its predecessor. -/
  | notAscending
deriving DecidableEq, Repr

/-- The error that reports a violation. -/
def Violation.toError : Violation → Error
  | .noCount => .invalidFormat "string_table" "data.len() >= COUNT_SIZE"
  | .entriesCut => .invalidFormat "header_end" "header_end <= data.len()"
  | .offsetInHeader => .invalidFormat "offset" "offset >= header_end"
  | .endOutside => .invalidFormat "end" "end < table.data.len()"
  | .notTerminated => .invalidFormat "terminator" "table.data[end] == 0"
  | .notText index cause =>
    .invalidFormat "string_table" s!"entry {index} is not UTF-8: {cause.message}"
  | .notAscending =>
    .invalidFormat "string_table" "table.bytes_at(index - 1) < table.bytes_at(index)"

/-- A violation is always reported as malformed data. -/
theorem Violation.isInvalidFormat_toError (v : Violation) : v.toError.isInvalidFormat := by
  cases v <;> rfl

/-- Refuses data that breaks a rule, unless the rule holds. -/
def Violation.unless (holds : Prop) [Decidable holds] (v : Violation) : Except Failure Unit :=
  if holds then .ok () else .error (.error v.toError)

end PosDictionary
