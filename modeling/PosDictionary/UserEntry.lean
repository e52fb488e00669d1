import PosDictionary.Text.Quoted
import PosDictionary.Text.Structured

/-!
# Entries of a user's vocabulary

A word that a user has registered: the reading and the written form of its stem, and the name of
the POS by which it is to be inflected.
-/

namespace PosDictionary

/-- An entry of a user's vocabulary. -/
structure UserEntry where
  /-- The reading of the stem. -/
  key : String
  /-- The written form of the stem. -/
  value : String
  /-- The name of the POS that the user has chosen. -/
  pos : String
deriving DecidableEq, Repr

/-- The parts of an entry. -/
def UserEntry.describe (e : UserEntry) : String :=
  Text.structured "UserEntry"
    [("key", Text.quoted e.key), ("value", Text.quoted e.value), ("pos", Text.quoted e.pos)]

end PosDictionary
