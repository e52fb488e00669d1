import PosDictionary.Proofs.ByteViews
import PosDictionary.Proofs.Rules
import PosDictionary.TokenArray

/-!
# The stored form of token arrays

What bytes have to be in order to be the token array of a dictionary with `count` strings, said of
the bytes alone: `WellFormed`. The bytes are read in steps of eight, each of which holds a record,
`record`.

As for string tables, the same conditions are taken one by one in the order in which they are
judged, `rules`, and `wellFormed_iff` says that they amount to the same.
-/

namespace PosDictionary

open LittleEndian

/-- The record that is stored in `data` at `place`. -/
def TokenRecord.storedAt (data : List UInt8) (place : Nat) : TokenRecord where
  posIndex := UInt16.ofNat (numberAt 2 data place)
  valueSuffixIndex := UInt16.ofNat (numberAt 2 data (place + 2))
  keySuffixIndex := UInt16.ofNat (numberAt 2 data (place + 4))
  conjugationId := UInt16.ofNat (numberAt 2 data (place + 6))

/-- The record refers only to the first `count` strings. -/
def TokenRecord.RefersBelow (count : Nat) (r : TokenRecord) : Prop :=
  r.posIndex.toNat < count ∧ r.valueSuffixIndex.toNat < count ∧ r.keySuffixIndex.toNat < count

instance (count : Nat) : DecidablePred (TokenRecord.RefersBelow count) :=
  fun _ => inferInstanceAs (Decidable (_ ∧ _ ∧ _))

namespace TokenArray.Layout

variable (count : Nat) (data : List UInt8)

/-! ## The parts of an array -/

/-- The record at ordinal `i`. -/
def record (i : Nat) : TokenRecord := TokenRecord.storedAt data (8 * i)

/-- All records. -/
def records : List TokenRecord := (List.range (data.length / 8)).map (record data)

/-- The bytes are a token array for `count` strings. -/
structure WellFormed : Prop where
  /-- The bytes divide into records. -/
  whole : data.length % 8 = 0
  /-- The strings that a record refers to are there. -/
  refersBelow : ∀ r ∈ records data, r.RefersBelow count
  /-- The records are in the order of their POS. -/
  sorted : (records data).Pairwise fun r s => r.posIndex ≤ s.posIndex

/-! ## Rules -/

/-- A condition on a token array. -/
inductive Rule where
  /-- The bytes divide into records. -/
  | whole
  /-- The strings that record `i` refers to are there. -/
  | refersBelow (i : Nat)
  /-- Record `i + 1` does not belong before record `i`. -/
  | ordered (i : Nat)

/-- The array keeps a rule. -/
def Rule.Holds : Rule → Prop
  | .whole => data.length % 8 = 0
  | .refersBelow i => (record data i).RefersBelow count
  | .ordered i => (record data i).posIndex ≤ (record data (i + 1)).posIndex

instance : DecidablePred (Rule.Holds count data)
  | .whole => inferInstanceAs (Decidable (data.length % 8 = 0))
  | .refersBelow i => inferInstanceAs (Decidable ((record data i).RefersBelow count))
  | .ordered i =>
    inferInstanceAs (Decidable ((record data i).posIndex ≤ (record data (i + 1)).posIndex))

/-- How an array is reported that breaks a rule. -/
def Rule.error : Rule → Error
  | .whole => .invalidFormat "token_array" "data.len() % TOKEN_RECORD_SIZE == 0"
  | .refersBelow i => .invalidFormat "token_array"
      s!"record {i} refers to string {(record data i).maxStringIndex}, table has {count} entries"
  | .ordered i => .invalidFormat "token_array"
      s!"record {i + 1} has POS index {(record data (i + 1)).posIndex} after {(record data i).posIndex}"

/-- A broken rule is always reported as malformed data. -/
theorem Rule.isInvalidFormat_error (r : Rule) : (r.error count data).isInvalidFormat := by
  cases r <;> rfl

/-- The rules of an array in the order in which they are judged: that for the size, those for the
strings of each record, those for each pair of neighbours. -/
def rules : List Rule :=
  .whole :: ((List.range (data.length / 8)).map .refersBelow ++
    (List.range (data.length / 8 - 1)).map .ordered)

variable {count data}

/-- The records are in order when each is in order with its neighbour. -/
theorem pairwise_records_iff :
    (records data).Pairwise (fun r s => r.posIndex ≤ s.posIndex) ↔
      ∀ i < data.length / 8 - 1, (record data i).posIndex ≤ (record data (i + 1)).posIndex := by
  unfold records
  rw [List.pairwise_map]
  apply Rules.pairwise_range_iff
  exact fun hij hjk => UInt16.le_trans hij hjk

/-- An array is well-formed when it keeps every rule. -/
theorem wellFormed_iff : WellFormed count data ↔ ∀ r ∈ rules data, r.Holds count data := by
  simp only [rules, List.forall_mem_cons, List.forall_mem_append, List.forall_mem_map,
    List.mem_range, Rule.Holds]
  constructor
  · intro h
    refine ⟨h.whole, fun i hi => h.refersBelow _ ?_, pairwise_records_iff.mp h.sorted⟩
    exact List.mem_map_of_mem (List.mem_range.mpr hi)
  · rintro ⟨hwhole, hrefers, hordered⟩
    refine ⟨hwhole, ?_, pairwise_records_iff.mpr hordered⟩
    intro r hr
    obtain ⟨i, hi, rfl⟩ := List.mem_map.mp hr
    exact hrefers i (List.mem_range.mp hi)

end TokenArray.Layout

end PosDictionary
