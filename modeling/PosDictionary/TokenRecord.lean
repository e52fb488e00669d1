import PosDictionary.Bytes.Buffer

/-!
# Token records

One form of one POS, as it is stored: four two-byte numbers, least significant byte first.

| bytes  | content                          |
|--------|----------------------------------|
| 0 to 1 | string index of the POS name     |
| 2 to 3 | string index of the value suffix |
| 4 to 5 | string index of the key suffix   |
| 6 to 7 | conjugation id                   |
-/

namespace PosDictionary

/-- A token record. Its three indices refer to strings of a string table. -/
structure TokenRecord where
  /-- The string index of the POS name, which is the id of the POS. -/
  posIndex : UInt16
  /-- The string index of what is appended to the written form. -/
  valueSuffixIndex : UInt16
  /-- The string index of what is appended to the reading. -/
  keySuffixIndex : UInt16
  /-- The conjugation of the form. -/
  conjugationId : UInt16
deriving DecidableEq, Repr

namespace TokenRecord

/-- The number of bytes of a stored record. -/
def size : Nat := 8

/-- Reads a record from the first bytes of `b`; too few bytes are a fault. -/
def decode (b : Bytes) : Except Fault TokenRecord := do
  let posIndex ← b.getUInt16 0
  let valueSuffixIndex ← b.getUInt16 2
  let keySuffixIndex ← b.getUInt16 4
  let conjugationId ← b.getUInt16 6
  return { posIndex, valueSuffixIndex, keySuffixIndex, conjugationId }

/-- Appends the stored form of a record. -/
def encodeInto (r : TokenRecord) (buf : Buffer) : Buffer :=
  buf.putUInt16 r.posIndex
    |>.putUInt16 r.valueSuffixIndex
    |>.putUInt16 r.keySuffixIndex
    |>.putUInt16 r.conjugationId

/-- The stored forms of records, one after the other. -/
def encodeAll (records : List TokenRecord) : Buffer :=
  records.foldl (fun buf r => r.encodeInto buf) (Buffer.withCapacity (records.length * size))

/-- The greatest string index of a record. -/
def maxStringIndex (r : TokenRecord) : UInt16 :=
  max (max r.posIndex r.valueSuffixIndex) r.keySuffixIndex

/-- The parts of a record. -/
def describe (r : TokenRecord) : String :=
  Text.structured "TokenRecord"
    [("pos_index", s!"{r.posIndex}"), ("value_suffix_index", s!"{r.valueSuffixIndex}"),
      ("key_suffix_index", s!"{r.keySuffixIndex}"), ("conjugation_id", s!"{r.conjugationId}")]

end TokenRecord

end PosDictionary
