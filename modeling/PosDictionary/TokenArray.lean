import PosDictionary.Cursor
import PosDictionary.Failure
import PosDictionary.Search
import PosDictionary.TokenRecord

/-!
# Token arrays

Token records one after the other in a view of bytes. Records are addressed by their ordinal and
decoded when they are asked for. An array may hold any records; `verifySorted` and
`verifyStringIndices` say whether it can serve as part of a dictionary.
-/

namespace PosDictionary

/-- Stored token records. -/
structure TokenArray where
  /-- The bytes of the records. -/
  data : Bytes

namespace TokenArray

/-- Takes bytes as records; they have to divide into whole records. -/
def ofBytes (data : Bytes) : Except Error TokenArray := do
  checkFormat (data.len % TokenRecord.size == 0) "token_array"
    "data.len() % TOKEN_RECORD_SIZE == 0"
  return ⟨data⟩

/-- The number of records. -/
def len (t : TokenArray) : Nat := t.data.len / TokenRecord.size

/-- There are no records. -/
def isEmpty (t : TokenArray) : Bool := t.data.isEmpty

/-! ## Records by ordinal -/

/-- The record at ordinal `i`; there has to be one. -/
def record (t : TokenArray) (i : Nat) : Except Fault TokenRecord := do
  let start := i * TokenRecord.size
  TokenRecord.decode (← t.data.slice start (start + TokenRecord.size))

/-- The POS index of the record at ordinal `i`; there has to be one. -/
def posKey (t : TokenArray) (i : Nat) : Except Fault UInt16 := do
  let start := i * TokenRecord.size
  (← t.data.slice start (start + TokenRecord.size)).getUInt16 0

/-- The record at ordinal `i`, if there is one. -/
def get? (t : TokenArray) (i : Nat) : Except Fault (Option TokenRecord) :=
  if i < t.len then some <$> t.record i else return none

/-- The POS index of the record at ordinal `i`, if there is one. -/
def posIndexAt? (t : TokenArray) (i : Nat) : Except Fault (Option UInt16) :=
  if i < t.len then some <$> t.posKey i else return none

/-! ## Runs of records -/

/-- The records of all blocks in turn. -/
def decodeBlocks (t : TokenArray) : Except Fault (List TokenRecord) :=
  (List.range t.len).mapM t.record

/-- The records in a span, from the bytes of the span alone: these are cut out of the array, and
into the blocks of single records. -/
def cut (t : TokenArray) (span : Span) : Except Fault (List TokenRecord) := do
  let part ← t.data.slice (span.start * TokenRecord.size) (span.stop * TokenRecord.size)
  decodeBlocks ⟨part⟩

/-- The records in a span; it has to lie in the array. -/
def range (t : TokenArray) (span : Span) : Except Fault (Cursor TokenRecord) :=
  if span.start ≤ span.stop ∧ span.stop ≤ t.len then do
    let records ← t.cut span
    return Cursor.ofArray records.toArray
  else
    .error (.recordRangeOutOfBounds span.start span.stop t.len)

/-- All records. -/
def records (t : TokenArray) : Except Fault (Cursor TokenRecord) := t.range ⟨0, t.len⟩

/-- The span of the records of one POS, provided that the records are in the order of their POS. -/
def equalRange (t : TokenArray) (posIndex : UInt16) : Except Fault Span :=
  Search.equalRange t.len posIndex t.posKey

/-! ## Checks -/

/-- Looks for the first record of `records` whose POS index is below the one before it. The first
of them stands at `ordinal` and comes after the POS index `prev`. -/
def checkSorted (ordinal : Nat) (prev : UInt16) : List TokenRecord → Except Error Unit
  | [] => .ok ()
  | r :: rest =>
    if r.posIndex < prev then
      .error (.invalidFormat "token_array"
        s!"record {ordinal} has POS index {r.posIndex} after {prev}")
    else
      checkSorted (ordinal + 1) r.posIndex rest

/-- Looks for the first record of `records` that refers to a string at or above `count`. The first
of them stands at `ordinal`. -/
def checkStringIndices (count ordinal : Nat) : List TokenRecord → Except Error Unit
  | [] => .ok ()
  | r :: rest =>
    if r.maxStringIndex.toNat < count then
      checkStringIndices count (ordinal + 1) rest
    else
      .error (.invalidFormat "token_array"
        s!"record {ordinal} refers to string {r.maxStringIndex}, table has {count} entries")

/-- Refuses records that are not in the order of their POS. -/
def verifySorted (t : TokenArray) : Except Failure Unit := do
  let records ← Failure.ofFault t.records
  Failure.ofError (checkSorted 0 0 records.toList)

/-- Refuses records that refer to a string beyond the `count` strings of a table. -/
def verifyStringIndices (t : TokenArray) (count : Nat) : Except Failure Unit := do
  let records ← Failure.ofFault t.records
  Failure.ofError (checkStringIndices count 0 records.toList)

/-- The place of the records. -/
def describe (t : TokenArray) : String :=
  Text.structured "TokenArrayView" [("data", t.data.describe)]

end TokenArray

end PosDictionary
