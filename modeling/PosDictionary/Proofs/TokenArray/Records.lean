import PosDictionary.Proofs.Search
import PosDictionary.Proofs.TokenArray.Layout

/-!
# The records of a token array

A token array is known by the list of its records, `TokenArray.stored`. Every query is a query to
that list: a record by its ordinal, a span of records, the span of the records of one POS. Writing
records and reading them back gives the same records, `records_encodeAll`.
-/

namespace PosDictionary

namespace TokenRecord

open LittleEndian Outcome

/-- The stored form of a record. -/
def encoded (r : TokenRecord) : List UInt8 :=
  encode 2 r.posIndex.toNat ++ encode 2 r.valueSuffixIndex.toNat ++
    encode 2 r.keySuffixIndex.toNat ++ encode 2 r.conjugationId.toNat

/-- A record takes eight bytes. -/
@[simp] theorem length_encoded (r : TokenRecord) : r.encoded.length = 8 := by
  simp [encoded]

/-- Eight bytes are decoded as the record that they store. -/
theorem decode_eq {b : Bytes} (h : 8 ≤ b.len) : decode b = .ok (storedAt b.toList 0) := by
  unfold decode
  rw [Bytes.getUInt16_of_le (by omega), Bytes.getUInt16_of_le (by omega),
    Bytes.getUInt16_of_le (by omega), Bytes.getUInt16_of_le (by omega)]
  rfl

/-- A record is read in a part of the bytes as it is read in all of them. -/
theorem storedAt_part {start size place : Nat} (data : List UInt8) (inside : place + 8 ≤ size) :
    storedAt ((data.drop start).take size) place = storedAt data (start + place) := by
  have hpart (field : Nat) (h : field ≤ 6) :
      numberAt 2 ((data.drop start).take size) (place + field) =
        numberAt 2 data (start + place + field) := by
    rw [numberAt_part data (by omega), Nat.add_assoc]
  simp only [storedAt, hpart 2 (by decide), hpart 4 (by decide), hpart 6 (by decide)]
  rw [numberAt_part data (by omega)]

/-- A record does not depend on what stands in front of it. -/
theorem storedAt_drop (data : List UInt8) (place : Nat) :
    storedAt (data.drop place) 0 = storedAt data place := by
  simp only [storedAt, numberAt_drop, Nat.zero_add, Nat.add_zero]

/-- A record is read where it was written. -/
theorem storedAt_encoded (r : TokenRecord) (rest : List UInt8) :
    storedAt (r.encoded ++ rest) 0 = r := by
  have fits (n : UInt16) : n.toNat < Nat.pow 256 2 := n.toNat_lt
  have read (n : UInt16) (tail : List UInt8) :
      UInt16.ofNat (numberAt 2 (encode 2 n.toNat ++ tail) 0) = n := by
    rw [numberAt_encode (fits n), UInt16.ofNat_toNat]
  simp [storedAt, encoded, numberAt_encode_append, read]

/-- A record is written behind what is there. -/
@[simp] theorem toList_encodeInto (r : TokenRecord) (buf : Buffer) :
    (r.encodeInto buf).toList = buf.toList ++ r.encoded := by
  simp [encodeInto, encoded]

/-- Records are written behind each other. -/
theorem toList_encodeAll (records : List TokenRecord) :
    (encodeAll records).toList = records.flatMap encoded := by
  suffices h : ∀ buf : Buffer, (records.foldl (fun buf r => r.encodeInto buf) buf).toList =
      buf.toList ++ records.flatMap encoded by
    unfold encodeAll
    rw [h, Buffer.toList_withCapacity, List.nil_append]
  induction records with
  | nil => simp
  | cons r records ih =>
    intro buf
    rw [List.foldl_cons, ih, toList_encodeInto, List.flatMap_cons, List.append_assoc]

/-- Records take eight bytes each. -/
theorem length_encodeAll (records : List TokenRecord) :
    (encodeAll records).toList.length = 8 * records.length := by
  simp [toList_encodeAll, List.length_flatMap, Nat.mul_comm]

/-- At its place, a record is stored as it was written. -/
theorem storedAt_flatMap_encoded {records : List TokenRecord} {i : Nat} (h : i < records.length) :
    storedAt (records.flatMap encoded) (8 * i) = records[i] := by
  rw [← storedAt_drop, drop_flatMap_of_length length_encoded, List.drop_eq_getElem_cons h,
    List.flatMap_cons, storedAt_encoded]

end TokenRecord

namespace TokenArray

open TokenRecord Outcome

/-- The records of the array. -/
def stored (t : TokenArray) : List TokenRecord := Layout.records t.data.toList

variable (t : TokenArray)

/-- As many records are stored as the array says. -/
@[simp] theorem length_stored : t.stored.length = t.len := by
  simp [stored, Layout.records, len, TokenRecord.size]

/-- A record that is stored is the one at its place in the bytes. -/
@[simp] theorem getElem_stored {i : Nat} (h : i < t.stored.length) :
    t.stored[i] = Layout.record t.data.toList i := by
  simp [stored, Layout.records]

variable {t}

/-! ## Records by ordinal -/

/-- The bytes of a record can be cut, and store it. -/
theorem slice_record {i : Nat} (h : i < t.stored.length) :
    ∃ c, t.data.slice (i * TokenRecord.size) (i * TokenRecord.size + TokenRecord.size) = .ok c ∧
      c.len = 8 ∧ storedAt c.toList 0 = t.stored[i] := by
  have hlen : i < t.data.len / 8 := by simpa [len, TokenRecord.size] using h
  obtain ⟨c, hc, hsize, hlist⟩ := Bytes.slice_of_le (b := t.data)
    (Nat.le_add_right (i * TokenRecord.size) TokenRecord.size)
    (by simp only [TokenRecord.size]; omega)
  rw [Nat.add_sub_cancel_left] at hsize hlist
  refine ⟨c, hc, hsize, ?_⟩
  rw [hlist, TokenRecord.size, storedAt_part _ (by decide), getElem_stored, Layout.record,
    Nat.mul_comm, Nat.add_zero]

/-- A record is read as it is stored. -/
theorem record_eq {i : Nat} (h : i < t.stored.length) : t.record i = .ok t.stored[i] := by
  obtain ⟨c, hc, hsize, hrecord⟩ := slice_record h
  rw [record, hc, ok_bind, decode_eq (by omega), hrecord]

/-- The key of a record is its id. -/
theorem posKey_eq {i : Nat} (h : i < t.stored.length) :
    t.posKey i = .ok t.stored[i].posIndex := by
  obtain ⟨c, hc, hsize, hrecord⟩ := slice_record h
  rw [posKey, hc, ok_bind, Bytes.getUInt16_of_le (by omega), ← hrecord]
  rfl

/-- The record at an index is read, or none is there. -/
theorem get?_eq (i : Nat) : t.get? i = .ok t.stored[i]? := by
  by_cases h : i < t.stored.length
  · unfold get?
    rw [if_pos (by simpa using h), record_eq h, List.getElem?_eq_getElem h, map_ok]
  · unfold get?
    rw [if_neg (by simpa using h), List.getElem?_eq_none (Nat.le_of_not_lt h), pure_eq_ok]

/-- The id at an index is read, or none is there. -/
theorem posIndexAt?_eq (i : Nat) : t.posIndexAt? i = .ok (t.stored[i]?.map posIndex) := by
  by_cases h : i < t.stored.length
  · unfold posIndexAt?
    rw [if_pos (by simpa using h), posKey_eq h, List.getElem?_eq_getElem h, map_ok,
      Option.map_some]
  · unfold posIndexAt?
    rw [if_neg (by simpa using h), List.getElem?_eq_none (Nat.le_of_not_lt h), pure_eq_ok,
      Option.map_none]

/-- Records that are written are read from what was written. -/
theorem records_encodeAll (records : List TokenRecord) :
    Layout.records (encodeAll records).toList = records := by
  have hlen := length_encodeAll records
  apply List.ext_getElem
  · unfold Layout.records
    rw [List.length_map, List.length_range, hlen, Nat.mul_div_cancel_left _ (by decide)]
  · intro i _ hi
    simp [Layout.records, Layout.record, toList_encodeAll, storedAt_flatMap_encoded hi]

/-! ## Runs of records -/

/-- The records in a part of the bytes are those that all of them have there. -/
theorem records_part {data : List UInt8} {start count : Nat}
    (inside : start + count ≤ data.length / 8) :
    Layout.records ((data.drop (8 * start)).take (8 * count)) =
      ((Layout.records data).drop start).take count := by
  have hcount : (Layout.records ((data.drop (8 * start)).take (8 * count))).length = count := by
    rw [Layout.records, List.length_map, List.length_range, List.length_take, List.length_drop]
    omega
  apply List.ext_getElem
  · rw [hcount, List.length_take, List.length_drop, Layout.records, List.length_map,
      List.length_range]
    omega
  · intro i hi _
    have hi : i < count := hcount ▸ hi
    simp only [Layout.records, List.getElem_map, List.getElem_range, List.getElem_take,
      List.getElem_drop, Layout.record]
    rw [storedAt_part data (by omega), Nat.mul_add]

/-- Block by block, all records are decoded. -/
theorem decodeBlocks_eq (t : TokenArray) : t.decodeBlocks = .ok t.stored := by
  unfold decodeBlocks
  rw [← length_stored, mapM_range_eq_ok fun i hi => record_eq hi]

/-- Cutting the bytes of a span inside the array gives the records in it. -/
theorem cut_eq {start stop : Nat} (h : start ≤ stop) (inside : stop ≤ t.stored.length) :
    t.cut ⟨start, stop⟩ = .ok ((t.stored.drop start).take (stop - start)) := by
  have hlen : stop ≤ t.data.toList.length / 8 := by
    rwa [stored, Layout.records, List.length_map, List.length_range] at inside
  obtain ⟨part, hpart, -, hlist⟩ := Bytes.slice_of_le (b := t.data)
    (Nat.mul_le_mul_right TokenRecord.size h)
    (by rw [← Bytes.length_toList, TokenRecord.size]; omega)
  have hstored : stored ⟨part⟩ = (t.stored.drop start).take (stop - start) := by
    rw [stored, hlist, TokenRecord.size, ← Nat.sub_mul, Nat.mul_comm start, Nat.mul_comm (_ - _),
      records_part (by omega)]
    rfl
  unfold cut
  rw [hpart, ok_bind, decodeBlocks_eq, hstored]

/-- A span inside the array gives the records in it. -/
theorem range_eq {start stop : Nat} (h : start ≤ stop) (inside : stop ≤ t.stored.length) :
    t.range ⟨start, stop⟩ =
      .ok (Cursor.ofArray ((t.stored.drop start).take (stop - start)).toArray) := by
  have hcut := cut_eq h inside
  rw [length_stored] at inside
  unfold range
  rw [if_pos ⟨h, inside⟩, hcut, ok_bind]
  rfl

/-- All records are read in their order. -/
theorem records_eq : t.records = .ok (Cursor.ofArray t.stored.toArray) := by
  unfold records
  rw [range_eq (Nat.zero_le _) (by simp), List.drop_zero, Nat.sub_zero,
    List.take_of_length_le (by simp)]

/-- The POS index is read at the ordinal of every record. -/
theorem posKey_read (t : TokenArray) (i : Nat) (h : i < (t.stored.map posIndex).length) :
    t.posKey i = pure (t.stored.map posIndex)[i] := by
  rw [List.getElem_map]
  exact posKey_eq (by simpa using h)

/-- Whatever the order of the records, the span that is found lies in the array. -/
theorem exists_equalRange_within (t : TokenArray) (id : UInt16) :
    ∃ span, t.equalRange id = .ok span ∧ span.start ≤ span.stop ∧
      span.stop ≤ t.stored.length := by
  have hlen : t.len = (t.stored.map posIndex).length := by simp
  obtain ⟨span, hspan, hle, hstop⟩ := Search.exists_equalRange id (posKey_read t)
  refine ⟨span, ?_, hle, by rwa [List.length_map] at hstop⟩
  unfold equalRange
  rw [hlen, hspan]
  rfl

/-- The span of the records of one POS among records in the order of their POS. -/
def runOf (records : List TokenRecord) (id : UInt16) : Span :=
  ⟨(records.map posIndex).countP (· < id), (records.map posIndex).countP (¬ id < ·)⟩

/-- Such a span lies among the records, whatever their order. -/
theorem runOf_within (records : List TokenRecord) (id : UInt16) :
    (runOf records id).start ≤ (runOf records id).stop ∧
      (runOf records id).stop ≤ records.length := by
  constructor
  · refine List.countP_mono_left fun k _ hlt => decide_eq_true fun hgt => ?_
    exact UInt16.lt_asymm (of_decide_eq_true hlt) hgt
  · exact List.countP_le_length.trans_eq (List.length_map _)

/-- In sorted records, the span of the records of one POS is found. -/
theorem equalRange_eq (sorted : t.stored.Pairwise fun r s => r.posIndex ≤ s.posIndex)
    (id : UInt16) : t.equalRange id = .ok (runOf t.stored id) := by
  have hlen : t.len = (t.stored.map posIndex).length := by simp
  unfold equalRange
  rw [hlen, Search.equalRange_eq (List.pairwise_map.mpr sorted) id (posKey_read t)]
  rfl

/-- In sorted records, those of one POS stand together, and their span is found. -/
theorem exists_equalRange (sorted : t.stored.Pairwise fun r s => r.posIndex ≤ s.posIndex)
    (id : UInt16) :
    ∃ span, t.equalRange id = .ok span ∧ span.start ≤ span.stop ∧ span.stop ≤ t.stored.length ∧
      (t.stored.drop span.start).take span.size = t.stored.filter (·.posIndex = id) := by
  obtain ⟨hle, hstop⟩ := runOf_within t.stored id
  exact ⟨_, equalRange_eq sorted id, hle, hstop, Search.drop_take_eq_filter posIndex id sorted⟩

/-- In sorted records, the span of one POS has the ordinals of its records and no others. -/
theorem mem_runOf_iff {records : List TokenRecord}
    (sorted : records.Pairwise fun r s => r.posIndex ≤ s.posIndex) {id : UInt16} {i : Nat}
    (h : i < records.length) : i ∈ runOf records id ↔ records[i].posIndex = id := by
  have hlower := Search.lt_lowerBound_iff posIndex id sorted h
  have hupper := Search.lt_upperBound_iff posIndex id sorted h
  constructor
  · rintro ⟨hstart, hstop⟩
    have hnot := mt hlower.mpr (Nat.not_lt.mpr hstart)
    exact Std.le_antisymm (Std.not_lt.mp (hupper.mp hstop)) (Std.not_lt.mp hnot)
  · rintro rfl
    exact ⟨Nat.le_of_not_lt fun hlt => Std.lt_irrefl (hlower.mp hlt), hupper.mpr Std.lt_irrefl⟩

end TokenArray

end PosDictionary
