import PosDictionary.PosIndex.DistinctIds
import PosDictionary.StringTable.Basic
import PosDictionary.TokenArray

/-!
# Parts of speech in a table and an array

The id of a POS is the index of its name in the string table. The records of a POS carry its id,
so both the ids and the names of the POS ascend in the order of the records, and both are searched
in the same way. A string that no record names as its POS, such as a suffix, is no POS.
-/

namespace PosDictionary

/-- The name of a POS and its id. -/
structure PosEntry where
  /-- The name. -/
  name : String
  /-- The id, the string index of the name. -/
  id : UInt16
deriving DecidableEq, Repr

/-- The parts of an entry. -/
def PosEntry.describe (e : PosEntry) : String :=
  Text.structured "PosEntry" [("name", Text.quoted e.name), ("id", s!"{e.id}")]

/-- The names and the records of the POS. -/
structure PosIndex where
  /-- The names of the POS, among other strings. -/
  strings : StringTable
  /-- The records of the POS. -/
  tokens : TokenArray

namespace PosIndex

/-- The span of the records of a POS. It is empty when there are none. -/
def recordRange (x : PosIndex) (id : UInt16) : Except Fault Span :=
  x.tokens.equalRange id

/-- The records of a POS, in the order in which they are stored. -/
def records (x : PosIndex) (id : UInt16) : Except Fault (Cursor TokenRecord) := do
  x.tokens.range (← x.recordRange id)

/-- The id of the POS of this name: the index of the name, if it fits an id and some record
carries it. -/
def resolveId (x : PosIndex) (name : String) : Except Fault (Option UInt16) := do
  match ← x.strings.find name with
  | none => return none
  | some index =>
    if index < UInt16.size then
      let id := UInt16.ofNat index
      return if (← x.recordRange id).isEmpty then none else some id
    else
      return none

/-- The ids of the POS, in the order of the records. -/
def distinctIds (x : PosIndex) : Except Fault DistinctIds :=
  DistinctIds.ofRecords <$> x.tokens.records

/-- The POS, in the order of the records. -/
def entries (x : PosIndex) : Except Fault (List PosEntry) := do
  (← x.distinctIds).toList.mapM fun id => do
    return { name := ← x.strings.textAt id.toNat, id }

end PosIndex

end PosDictionary
