import PosDictionary.Definition.Basic
import PosDictionary.Event
import PosDictionary.Search
import PosDictionary.Segments
import PosDictionary.StringTable.Writer
import PosDictionary.TokenRecord

/-!
# Building dictionary data

A `Builder` takes definitions of POS, each name once, and writes them as the two pieces of a
dictionary. All names and suffixes go into one string table, so the id of a POS is the rank of its
name among them. The records are in the order of their POS; the forms of one POS keep the order of
their definition.
-/

namespace PosDictionary

/-- Definitions that are to become a dictionary. -/
structure Builder where
  /-- The definitions, in the order in which they were added. -/
  definitions : Array PosDefinition
  /-- The names of the definitions. -/
  names : Std.HashSet String

namespace Builder

/-- The number of strings that the indices of a record can tell apart. -/
def maxStrings : Nat := UInt16.size

/-- No definitions. -/
def empty : Builder := ⟨#[], ∅⟩

/-! ## Offering definitions

A caller that keeps the builder after a refusal offers definitions to it. Whether a refused offer
has left something behind is then a question of its own. -/

/-- The refusal of a definition that has no form. -/
def noForms (name : String) : Error :=
  .invalidArgument "definition" ("POS " ++ Text.quoted name ++ " has no forms")

/-- The refusal of a definition whose name another one has. -/
def definedTwice (name : String) : Error :=
  .invalidArgument "definition" ("POS " ++ Text.quoted name ++ " is defined twice")

/-- Offers a definition to a builder: the answer, and the builder as it is afterwards. The name is
registered before the definition is taken; whether it was there already shows on the way. -/
def offer (b : Builder) (d : PosDefinition) : Except Error Unit × Builder :=
  if d.forms.isEmpty then
    (.error (noForms d.name), b)
  else
    let (known, names) := b.names.containsThenInsert d.name
    let b := { b with names }
    if known then
      (.error (definedTwice d.name), b)
    else
      (.ok (), { b with definitions := b.definitions.push d })

/-! ## Adding definitions -/

/-- Adds a definition: offers it, and goes on with the builder that is there afterwards. A refusal
takes the builder with it. -/
def addPos (b : Builder) (d : PosDefinition) : Except Error Builder :=
  let (answer, b) := b.offer d
  answer.map fun _ => b

/-- Adds definitions in turn, up to the first that is refused. -/
def addAll (b : Builder) (definitions : List PosDefinition) : Except Error Builder :=
  definitions.foldlM addPos b

/-- A builder with these definitions. -/
def ofDefinitions (definitions : List PosDefinition) : Except Error Builder :=
  empty.addAll definitions

/-- The number of definitions. -/
def posCount (b : Builder) : Nat := b.definitions.size

/-! ## Writing -/

/-- The distinct strings that the definitions use. -/
def strings (b : Builder) : StringSet :=
  b.definitions.foldl (fun set d => set.insertAll d.strings) .empty

/-- The index of a string in a table with the ordering keys `keys`. -/
def indexOf (keys : Array (List UInt8)) (s : String) : Except Error UInt16 :=
  match Id.run (Search.locate keys.size fun i =>
      compareOfLessAndEq (keys.getD i []) (Text.bytes s)) with
  | .error _ => .error (.invalidOperation "string interning")
  | .ok index =>
    if index < UInt16.size then
      .ok (UInt16.ofNat index)
    else
      .error (.capacityExceeded "string_table" maxStrings)

/-- The records of a definition, in the order of its forms. Its strings are looked up by
`lookup`. -/
def recordsOf (lookup : String → Except Error UInt16) (d : PosDefinition) :
    Except Error (List TokenRecord) := do
  let posIndex ← lookup d.name
  d.forms.mapM fun f => do
    let valueSuffixIndex ← lookup f.valueSuffix
    let keySuffixIndex ← lookup f.keySuffix
    return ⟨posIndex, valueSuffixIndex, keySuffixIndex, f.conjugationId⟩

/-- The records of all definitions, in the order of their POS. Sorting keeps the order of records
of the same POS. -/
def records (b : Builder) (lookup : String → Except Error UInt16) :
    Except Error (List TokenRecord) := do
  let records ← b.definitions.toList.mapM (recordsOf lookup)
  return records.flatten.mergeSort fun r s => decide (r.posIndex ≤ s.posIndex)

/-- A way to look up strings in a table with given ordering keys. -/
abbrev Lookup := Array (List UInt8) → String → Except Error UInt16

/-- The two pieces of the dictionary and the records in them, where strings are looked up by
`lookup`. -/
def encodeBy (lookup : Lookup) (b : Builder) :
    Except Error (List String × List TokenRecord × Segments) := do
  let set := b.strings
  if maxStrings < set.len then
    .error (.capacityExceeded "string_table" maxStrings)
  else
    let strings := set.toSortedList
    let records ← b.records (lookup (strings.map Text.bytes).toArray)
    let stringArray ← StringTable.serialize strings
    return (strings, records, ⟨(TokenRecord.encodeAll records).freeze 0, stringArray⟩)

/-- Writes the definitions as a dictionary and reports what was written. Strings are looked up by
`lookup`. -/
def finishBy (lookup : Lookup) (b : Builder) : Traced Error Segments := do
  let (strings, records, data) ← Traced.ofExcept (b.encodeBy lookup)
  Traced.emit (.built b.posCount records.length strings.length
    data.tokenArray.len data.stringArray.len)
  return data

/-- Writes the definitions as a dictionary and reports what was written. -/
def finish (b : Builder) : Traced Error Segments := b.finishBy indexOf

end Builder

end PosDictionary
