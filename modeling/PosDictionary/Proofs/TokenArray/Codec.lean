import Mathlib.Logic.ExistsUnique
import PosDictionary.Proofs.Cursors
import PosDictionary.Proofs.TokenArray.Records

/-!
# Records and bytes, one to one

A list of records has one stored form, and bytes that divide into records are the stored form of
one list. `ofBytes_inverts_encodeAll` says so of all lists and of all bytes.

The records of an array are read in three ways, which share no more than the layout of a record:

* a record is decoded at its ordinal;
* only its POS index is read there;
* the bytes of a span are cut out, and cut into records in turn, `TokenArray.cut`; a cursor goes
  through these.

`TokenArray.Reads` says that all of them give the same records.
-/

namespace PosDictionary

namespace LittleEndian

/-- Bytes are the encoding of the number that is read from them. -/
theorem encode_numberAt {width place : Nat} {data : List UInt8}
    (inside : place + width ≤ data.length) :
    encode width (numberAt width data place) = (data.drop place).take width := by
  have hlen : ((data.drop place).take width).length = width := by
    rw [List.length_take, List.length_drop]
    omega
  have hread := encode_decode ((data.drop place).take width)
  rwa [hlen] at hread

/-- Bytes are put together again from their blocks. -/
theorem flatMap_blocks (data : List UInt8) (width count : Nat) :
    (List.range count).flatMap (fun i => (data.drop (width * i)).take width) =
      data.take (width * count) := by
  induction count with
  | zero => rw [Nat.mul_zero, List.take_zero]; rfl
  | succ count ih =>
    rw [List.range_succ, List.flatMap_append, ih, Nat.mul_succ, List.take_add,
      List.flatMap_singleton]

end LittleEndian

namespace TokenRecord

open LittleEndian

/-- The bytes from which a record is read are its stored form. -/
theorem encoded_storedAt {place : Nat} {data : List UInt8} (inside : place + 8 ≤ data.length) :
    (storedAt data place).encoded = (data.drop place).take 8 := by
  have field (offset : Nat) (h : offset ≤ 6) :
      encode 2 (UInt16.ofNat (numberAt 2 data (place + offset))).toNat =
        (data.drop (place + offset)).take 2 := by
    rw [UInt16.toNat_ofNat_of_lt' (numberAt_lt 2 data _), encode_numberAt (by omega)]
  have hsplit : (data.drop place).take 8 = (data.drop place).take 2 ++
      (data.drop (place + 2)).take 2 ++ (data.drop (place + 4)).take 2 ++
        (data.drop (place + 6)).take 2 := by
    rw [← List.drop_drop, ← List.take_add, ← List.drop_drop, ← List.take_add, ← List.drop_drop,
      ← List.take_add]
  rw [hsplit]
  unfold encoded storedAt
  rw [field 2 (by decide), field 4 (by decide), field 6 (by decide)]
  congr 3
  exact field 0 (by decide)

/-- Different lists of records have different stored forms. -/
theorem encodeAll_inj {records others : List TokenRecord}
    (h : (encodeAll records).toList = (encodeAll others).toList) : records = others := by
  rw [← TokenArray.records_encodeAll records, h, TokenArray.records_encodeAll]

end TokenRecord

namespace TokenArray

open LittleEndian TokenRecord Outcome

/-! ## Bytes from records -/

/-- The bytes at the place of a record are its stored form. -/
theorem encoded_record {data : List UInt8} {i : Nat} (h : i < data.length / 8) :
    (Layout.record data i).encoded = (data.drop (8 * i)).take 8 :=
  encoded_storedAt (by omega)

/-- Bytes that divide into records are the stored forms of these, one after the other. -/
theorem toList_encodeAll_records {data : List UInt8} (whole : data.length % 8 = 0) :
    (encodeAll (Layout.records data)).toList = data := by
  have hblock : ∀ i ∈ List.range (data.length / 8),
      (Layout.record data i).encoded = (data.drop (8 * i)).take 8 :=
    fun i hi => encoded_record (List.mem_range.mp hi)
  rw [toList_encodeAll, Layout.records, List.flatMap_map, List.flatMap_congr hblock,
    flatMap_blocks, List.take_of_length_le (by omega)]

/-- Bytes divide into records if they are the stored form of a list of records, and of one only. -/
theorem whole_iff_existsUnique {data : List UInt8} :
    data.length % 8 = 0 ↔ ∃! records, (encodeAll records).toList = data := by
  constructor
  · intro whole
    refine ⟨Layout.records data, toList_encodeAll_records whole, ?_⟩
    intro records hrecords
    exact encodeAll_inj (hrecords.trans (toList_encodeAll_records whole).symm)
  · rintro ⟨records, rfl, -⟩
    rw [length_encodeAll, Nat.mul_mod_right]

/-- Bytes are accepted when they divide into records. -/
theorem ofBytes_eq_ok_iff {b : Bytes} {t : TokenArray} :
    ofBytes b = .ok t ↔ b.len % 8 = 0 ∧ t = ⟨b⟩ := by
  unfold ofBytes checkFormat
  by_cases h : b.len % 8 = 0
  · simp [TokenRecord.size, h, eq_comm]
  · simp [TokenRecord.size, h]

variable {t : TokenArray} {records : List TokenRecord}

/-! ## Reading an array -/

/-- The array reads as these records, in whichever way they are read. -/
structure Reads (t : TokenArray) (records : List TokenRecord) : Prop where
  /-- It counts them. -/
  len_eq : t.len = records.length
  /-- It gives each of them at its ordinal, and nothing beyond. -/
  get?_eq : ∀ i, t.get? i = .ok records[i]?
  /-- It gives the POS index of each of them. -/
  posIndexAt?_eq : ∀ i, t.posIndexAt? i = .ok (records[i]?.map TokenRecord.posIndex)
  /-- A cursor over all of them gives each at its ordinal. -/
  records_eq : ∃ c, t.records = .ok c ∧ ∀ i, (c.nth i).1 = records[i]?
  /-- So does a cursor over a span, from the start of the span on. -/
  range_eq : ∀ start stop, start ≤ stop → stop ≤ records.length →
    ∃ c, t.range ⟨start, stop⟩ = .ok c ∧ c.len = stop - start ∧
      ∀ i, start ≤ i → i < stop → (c.nth (i - start)).1 = records[i]?
  /-- The bytes of a span are cut into its records. -/
  cut_eq : ∀ start stop, start ≤ stop → stop ≤ records.length →
    t.cut ⟨start, stop⟩ = .ok ((records.drop start).take (stop - start))

/-- An array reads as the records that are stored. -/
theorem reads_stored (t : TokenArray) : t.Reads t.stored where
  len_eq := (length_stored t).symm
  get?_eq := TokenArray.get?_eq
  posIndexAt?_eq := TokenArray.posIndexAt?_eq
  records_eq := by
    refine ⟨_, TokenArray.records_eq, fun i => ?_⟩
    rw [Cursor.fst_nth, Cursor.toList_ofArray]
  range_eq start stop h inside := by
    refine ⟨_, TokenArray.range_eq h inside, ?_, ?_⟩
    · rw [← Cursor.length_toList, Cursor.toList_ofArray, List.length_take, List.length_drop]
      omega
    · intro i hstart hstop
      rw [Cursor.fst_nth, Cursor.toList_ofArray, List.getElem?_take_of_lt (by omega),
        List.getElem?_drop, Nat.add_sub_cancel' hstart]
  cut_eq _ _ := TokenArray.cut_eq

/-- **Stored records and bytes determine each other.** Records that are written are accepted, and
the array reads as these records, in whichever way it is read. Bytes are accepted if and only if
they divide into records; the records that are read from them are written as the same bytes, so
that they are the stored form of one list of records. -/
theorem ofBytes_inverts_encodeAll :
    (∀ records segment, ∃ t, ofBytes ((encodeAll records).freeze segment) = .ok t ∧
      t.Reads records) ∧
    (∀ b, (∃ t, ofBytes b = .ok t) ↔ b.len % 8 = 0) ∧
    (∀ b t, ofBytes b = .ok t → ∃ c, t.records = .ok c ∧ t.Reads c.toList ∧
      (encodeAll c.toList).toList = b.toList) ∧
    ∀ data : List UInt8, data.length % 8 = 0 ↔ ∃! records, (encodeAll records).toList = data := by
  refine ⟨?_, ?_, ?_, fun data => whole_iff_existsUnique⟩
  · intro records segment
    have hlist := Bytes.toList_freeze (encodeAll records) segment
    have hwhole : ((encodeAll records).freeze segment).len % 8 = 0 := by
      rw [← Bytes.length_toList, hlist, length_encodeAll, Nat.mul_mod_right]
    have hstored : stored ⟨(encodeAll records).freeze segment⟩ = records := by
      rw [stored, hlist, records_encodeAll]
    refine ⟨_, ofBytes_eq_ok_iff.mpr ⟨hwhole, rfl⟩, ?_⟩
    have hreads := reads_stored ⟨(encodeAll records).freeze segment⟩
    rwa [hstored] at hreads
  · intro b
    simp only [ofBytes_eq_ok_iff, exists_and_left, exists_eq, and_true]
  · intro b t ht
    obtain ⟨hwhole, rfl⟩ := ofBytes_eq_ok_iff.mp ht
    refine ⟨_, TokenArray.records_eq, ?_, ?_⟩
    · rw [Cursor.toList_ofArray]
      exact reads_stored _
    · rw [Cursor.toList_ofArray]
      exact toList_encodeAll_records (b.length_toList ▸ hwhole)

/-- Records whose numbers use both of their bytes, with the least and the greatest POS index. -/
def wideRecords : List TokenRecord :=
  [⟨0, 256, 255, 513⟩, ⟨65535, 1, 65534, 4660⟩, ⟨258, 0, 32768, 65535⟩]

/-- Two records, with no byte like another. -/
def sixteenBytes : Bytes :=
  .ofArray #[1, 2, 3, 4, 5, 6, 7, 8, 255, 254, 253, 252, 251, 250, 249, 248] 0

/-- Records with the greatest numbers, and sixteen bytes that are two records. -/
theorem ofBytes_inverts_encodeAll_wideRecords :
    (∃ t, ofBytes ((encodeAll wideRecords).freeze 0) = .ok t ∧ t.Reads wideRecords) ∧
    ofBytes sixteenBytes = .ok ⟨sixteenBytes⟩ ∧
      ∃ c, TokenArray.records ⟨sixteenBytes⟩ = .ok c ∧ Reads ⟨sixteenBytes⟩ c.toList ∧
        (encodeAll c.toList).toList = sixteenBytes.toList := by
  obtain ⟨hwrite, -, hread, -⟩ := ofBytes_inverts_encodeAll
  have accepted : ofBytes sixteenBytes = .ok ⟨sixteenBytes⟩ := by rfl
  exact ⟨hwrite wideRecords 0, accepted, hread _ _ accepted⟩

end TokenArray

end PosDictionary
