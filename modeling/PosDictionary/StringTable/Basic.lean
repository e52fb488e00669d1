import PosDictionary.Bytes.View
import PosDictionary.Cursor
import PosDictionary.Search
import PosDictionary.StringTable.Violation
import PosDictionary.Text.ByteOrder

/-!
# String tables

The strings of a dictionary, each once and in ascending byte order, so that the index of a string
is also its rank. The stored form consists of four-byte numbers, least significant byte first, and
of the strings:

| part                     | content                                        |
|--------------------------|------------------------------------------------|
| bytes 0 to 3             | the number of strings                          |
| 8 bytes for each string  | its offset in the data, its length in bytes    |
| anywhere behind          | its bytes, followed by a zero byte             |

`StringTable.ofBytes` judges all of the data once. A table that it accepts answers every later
question by reading inside the data, and its strings may lie there in any order, share bytes or
leave gaps.

Counts, offsets and lengths take four bytes each. So the end of the entries and the end of a string
fit words of 64 bits, which is what is assumed of the machine here; with narrower words, a count or
a length that makes one of these ends overflow would have to be refused ("entry count overflow",
"entry length overflow"), and there is no such refusal below.
-/

namespace PosDictionary

/-- A stored string table. -/
structure StringTable where
  /-- The stored form. -/
  data : Bytes
  /-- The number of strings. -/
  len : Nat

namespace StringTable

/-- The number of bytes of the count. -/
def countSize : Nat := 4

/-- The number of bytes of an entry. -/
def entrySize : Nat := 8

/-- The place behind the entries of a table of `len` strings. -/
def headerEnd (len : Nat) : Nat := len * entrySize + countSize

/-! ## Strings by index -/

/-- Offset and length of the string at `i`, as its entry states them. -/
def entry (t : StringTable) (i : Nat) : Except Fault (Nat × Nat) := do
  let place := countSize + i * entrySize
  let offset ← t.data.getUInt32 place
  let size ← t.data.getUInt32 (place + 4)
  return (offset.toNat, size.toNat)

/-- The bytes of the string at `i`. -/
def bytesAt (t : StringTable) (i : Nat) : Except Fault Bytes := do
  let (offset, size) ← t.entry i
  t.data.slice offset (offset + size)

/-- The ordering key of the string at `i`. -/
def keyAt (t : StringTable) (i : Nat) : Except Fault (List UInt8) := do
  return (← t.bytesAt i).toList

/-- The string at `i`. Bytes that are no text read as the empty string; an accepted table has
none. -/
def textAt (t : StringTable) (i : Nat) : Except Fault String := do
  match Utf8.decode (← t.bytesAt i).toArray with
  | .ok text => return text
  | .error _ => return ""

/-! ## Accepting data -/

/-- Refuses the entry of string `i` unless its string lies behind the entries, is followed by a
zero byte, and is text. -/
def checkEntry (t : StringTable) (i : Nat) : Except Failure Unit := do
  let (offset, size) ← Failure.ofFault (t.entry i)
  Violation.offsetInHeader.unless (headerEnd t.len ≤ offset)
  -- Two four-byte numbers: the sum is below 2 ^ 33, so it does not overflow.
  let stop := offset + size
  Violation.endOutside.unless (stop < t.data.len)
  let terminator ← Failure.ofFault (t.data.get stop)
  Violation.notTerminated.unless (terminator = 0)
  let bytes ← Failure.ofFault (t.data.slice offset stop)
  match Utf8.decode bytes.toArray with
  | .ok _ => return ()
  | .error cause => .error (.error (Violation.notText i cause).toError)

/-- Refuses the string at `i + 1` unless it comes after the string at `i`. -/
def checkOrder (t : StringTable) (i : Nat) : Except Failure Unit := do
  let lower ← Failure.ofFault (t.keyAt i)
  let upper ← Failure.ofFault (t.keyAt (i + 1))
  Violation.notAscending.unless (lower < upper)

/-- Takes bytes as a string table. The header is judged first, then each entry in order, then each
pair of neighbours in order. -/
def ofBytes (data : Bytes) : Except Failure StringTable := do
  Violation.noCount.unless (countSize ≤ data.len)
  let len := (← Failure.ofFault (data.getUInt32 0)).toNat
  -- The end of the entries of a four-byte count is below 2 ^ 36, so it does not overflow.
  Violation.entriesCut.unless (headerEnd len ≤ data.len)
  let table : StringTable := ⟨data, len⟩
  (List.range len).forM table.checkEntry
  (List.range (len - 1)).forM table.checkOrder
  return table

/-! ## Questions -/

/-- The table has no strings. -/
def isEmpty (t : StringTable) : Bool := t.len == 0

/-- The string at `index`, which has to be in the table. -/
def get (t : StringTable) (index : Nat) : Except Failure String := do
  Failure.ofError (checkArgument (decide (index < t.len)) "index" "index < self.len")
  Failure.ofFault (t.textAt index)

/-- The index of a string, if it is in the table. -/
def find (t : StringTable) (s : String) : Except Fault (Option Nat) :=
  Search.find t.len (Text.bytes s) t.keyAt

/-- All strings in the order of their indices. -/
def strings (t : StringTable) : Except Fault (Cursor String) := do
  let texts ← (List.range t.len).mapM t.textAt
  return Cursor.ofArray texts.toArray

/-- The place of the table and the number of its strings. -/
def describe (t : StringTable) : String :=
  Text.structured "StringTable" [("data", t.data.describe), ("len", s!"{t.len}")]

end StringTable

end PosDictionary
