import PosDictionary.Bytes.View
import PosDictionary.Error

/-!
# Dictionary data

A dictionary is stored as two pieces of data. Whoever holds them hands them out as a `Provider`,
which may refuse.
-/

namespace PosDictionary

/-- The two pieces of a stored dictionary. -/
structure Segments where
  /-- The token records. -/
  tokenArray : Bytes
  /-- The string table. -/
  stringArray : Bytes

/-- Two stored dictionaries are equal if their bytes are. -/
instance : BEq Segments where
  beq a b := a.tokenArray == b.tokenArray && a.stringArray == b.stringArray

/-- The pieces without any bytes. -/
def Segments.empty : Segments := ⟨.empty, .empty⟩

/-- What a holder of dictionary data answers when it is asked for it. -/
abbrev Provider := Except Error Segments

end PosDictionary
