import PosDictionary.Bytes.Buffer
import PosDictionary.Error
import PosDictionary.Text.ByteOrder
import Std.Data.HashSet

/-!
# Writing string tables

`StringSet` collects strings, each once. `StringTable.serialize` writes strings that are already
strictly ascending in the stored form that `StringTable.ofBytes` reads: the strings follow the
entries in order and without gaps.
-/

namespace PosDictionary

/-- Distinct strings that are to become a table. -/
structure StringSet where
  /-- The strings. -/
  members : Std.HashSet String

namespace StringSet

/-- No strings. -/
def empty : StringSet := ⟨∅⟩

/-- Adds a string; one that is there already is not added again. -/
def insert (set : StringSet) (s : String) : StringSet := ⟨set.members.insert s⟩

/-- Adds every string of a list. -/
def insertAll (set : StringSet) (texts : List String) : StringSet :=
  texts.foldl insert set

/-- The strings of a list. -/
def ofList (texts : List String) : StringSet := empty.insertAll texts

/-- The string is in the set. -/
def contains (set : StringSet) (s : String) : Bool := set.members.contains s

/-- The number of strings. -/
def len (set : StringSet) : Nat := set.members.size

/-- There are no strings. -/
def isEmpty (set : StringSet) : Bool := set.members.isEmpty

/-- The strings in ascending byte order. The place of a string is its index in the table. -/
def toSortedList (set : StringSet) : List String := Text.sorted set.members.toList

/-- The strings of the set. -/
def describe (set : StringSet) : String :=
  Text.structured "StringTableBuilder"
    [("strings", Text.braced (set.toSortedList.map Text.quoted))]

end StringSet

namespace StringTable

/-- The greatest size of a stored table: places in it are four-byte numbers. -/
def maxSize : Nat := UInt32.size - 1

/-- The number of bytes behind the entries: each string has a terminator. -/
def textSize (texts : List String) : Nat :=
  texts.foldl (fun size s => size + (s.utf8ByteSize + 1)) 0

/-- Appends the entries of strings, the first of which lies at `offset`. -/
def putEntries (offset : Nat) (buf : Buffer) : List String → Buffer
  | [] => buf
  | s :: rest =>
    let len := s.utf8ByteSize
    let buf := buf.putUInt32 (UInt32.ofNat offset) |>.putUInt32 (UInt32.ofNat len)
    putEntries (offset + len + 1) buf rest

/-- Appends the strings, each with its terminator. -/
def putTexts (buf : Buffer) (texts : List String) : Buffer :=
  texts.foldl (fun buf s => (buf.append (Text.bytes s)).putUInt8 0) buf

/-- The stored form of strings that are strictly ascending. -/
def serialize (texts : List String) : Except Error Bytes := do
  checkArgument (Text.isAscending texts) "strings" "must be strictly ascending"
  let count := texts.length
  let header := 4 + 8 * count
  let total := header + textSize texts
  if maxSize < count ∨ maxSize < total then
    .error (.capacityExceeded "string_table" maxSize)
  else
    let buf := (Buffer.withCapacity total).putUInt32 (UInt32.ofNat count)
    let buf := putTexts (putEntries header buf texts) texts
    return buf.freeze 0

end StringTable

/-- The stored form of the strings of a set. -/
def StringSet.serialize (set : StringSet) : Except Error Bytes :=
  StringTable.serialize set.toSortedList

end PosDictionary
