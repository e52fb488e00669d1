import PosDictionary.PosIndex.Basic
import PosDictionary.Proofs.PosIndex.DistinctIds
import PosDictionary.Proofs.StringTable.Strings
import PosDictionary.Proofs.TokenArray.Records

/-!
# Questions about POS

A table and an array that fit together show some strings and some records, `PosIndex.Shows`. The
two searches for a POS, one for its name and one for its records, then select the records whose POS
index is the index of that name:

* `records_eq`: the records of an id are those that carry it, in their order;
* `resolveId_eq_some_iff`: a name has the id at which it stands in the table, if some record
  carries that id;
* `resolveId_eq_none_iff`: it has none if no record names it as its POS;
* `entries_eq`: the entries are the ids that records carry with their names, both ascending.
-/

namespace PosDictionary.PosIndex

open Outcome

/-- The table shows these strings and the array these records, which refer to strings of the table
and are in the order of their POS. -/
structure Shows (x : PosIndex) (texts : List String) (records : List TokenRecord) : Prop where
  /-- The table shows the strings. -/
  strings : x.strings.Shows texts
  /-- The array holds the records. -/
  stored_eq : x.tokens.stored = records
  /-- Every string that a record refers to is there. -/
  refersBelow : ∀ r ∈ records, r.RefersBelow texts.length
  /-- The records are in the order of their POS. -/
  sorted : records.Pairwise fun r s => r.posIndex ≤ s.posIndex

/-! ## Ids and entries of records -/

/-- The ids that records carry, one for each run of records with the same id. -/
def idsOf (records : List TokenRecord) : List UInt16 :=
  DistinctIds.collapse none (records.map (·.posIndex))

/-- The entry of an id, with its name from `texts`. -/
def entryOf (texts : List String) (id : UInt16) : PosEntry := ⟨texts.getD id.toNat "", id⟩

/-- The distinct ids are those of the records. -/
theorem mem_idsOf {records : List TokenRecord} {id : UInt16} :
    id ∈ idsOf records ↔ ∃ r ∈ records, r.posIndex = id := by
  unfold idsOf
  rw [DistinctIds.mem_collapse_none, List.mem_map]

/-- The ids of records in the order of their POS ascend. -/
theorem pairwise_idsOf {records : List TokenRecord}
    (sorted : records.Pairwise fun r s => r.posIndex ≤ s.posIndex) :
    (idsOf records).Pairwise (· < ·) :=
  @DistinctIds.pairwise_collapse none _ (List.pairwise_map.mpr sorted)

/-- The distinct ids are read from the records as they are stored. -/
theorem distinctIds_eq (x : PosIndex) :
    x.distinctIds = .ok (DistinctIds.ofRecords (Cursor.ofArray x.tokens.stored.toArray)) := by
  unfold distinctIds
  rw [TokenArray.records_eq, map_ok]

/-- The distinct ids of records are theirs, with runs collapsed. -/
theorem toList_ofRecords (records : List TokenRecord) :
    (DistinctIds.ofRecords (Cursor.ofArray records.toArray)).toList = idsOf records := by
  rw [DistinctIds.toList_eq, DistinctIds.left, DistinctIds.ofRecords, Cursor.toList_ofArray]
  rfl

namespace Shows

variable {x : PosIndex} {texts : List String} {records : List TokenRecord}

/-- The name of a record's POS stands in the table. -/
theorem getElem?_posIndex (h : x.Shows texts records) {r : TokenRecord} (hr : r ∈ records) :
    ∃ s, texts[r.posIndex.toNat]? = some s :=
  ⟨_, List.getElem?_eq_getElem (h.refersBelow r hr).1⟩

/-! ## The records of an id -/

/-- The span of an id is that of its run. -/
theorem recordRange_eq (h : x.Shows texts records) (id : UInt16) :
    x.recordRange id = .ok (TokenArray.runOf records id) := by
  rw [← h.stored_eq]
  exact TokenArray.equalRange_eq (h.stored_eq ▸ h.sorted) id

/-- The records of an id stand together, and their span is found. -/
theorem exists_recordRange (h : x.Shows texts records) (id : UInt16) :
    ∃ span, x.recordRange id = .ok span ∧ span.start ≤ span.stop ∧ span.stop ≤ records.length ∧
      (records.drop span.start).take span.size = records.filter (·.posIndex = id) := by
  rw [← h.stored_eq]
  exact TokenArray.exists_equalRange (h.stored_eq ▸ h.sorted) id

/-- The records of an id are those that carry it. -/
theorem records_eq (h : x.Shows texts records) (id : UInt16) :
    x.records id = .ok (Cursor.ofArray (records.filter (·.posIndex = id)).toArray) := by
  obtain ⟨span, hspan, hle, hstop, hrun⟩ := h.exists_recordRange id
  unfold PosIndex.records
  rw [hspan, ok_bind, TokenArray.range_eq hle (h.stored_eq ▸ hstop), h.stored_eq,
    ← Span.size, hrun]

/-- The span of an id is empty when no record carries the id. -/
theorem isEmpty_recordRange_iff (h : x.Shows texts records) {id : UInt16} {span : Span}
    (hspan : x.recordRange id = .ok span) :
    span.isEmpty ↔ ∀ r ∈ records, r.posIndex ≠ id := by
  obtain ⟨found, hfound, hle, hstop, hrun⟩ := h.exists_recordRange id
  obtain rfl : found = span := Except.ok.inj (hfound.symm.trans hspan)
  have hsize : (records.filter (·.posIndex = id)).length = found.size := by
    rw [← hrun, List.length_take, List.length_drop, Span.size]
    omega
  have hnone : (∀ r ∈ records, r.posIndex ≠ id) ↔ found.size = 0 := by
    rw [← hsize, List.length_eq_zero_iff, List.filter_eq_nil_iff]
    simp
  rw [hnone, Span.isEmpty, Span.size, decide_eq_true_iff, Nat.sub_eq_zero_iff_le]

/-! ## The id of a name -/

/-- A name is looked up by its place in the table and, where that place is an id, by the records
that carry it. -/
theorem resolveId_eq (h : x.Shows texts records) (name : String) :
    x.resolveId name = .ok ((texts.idxOf? name).bind fun index =>
      if index < UInt16.size ∧ ∃ r ∈ records, r.posIndex.toNat = index then some (.ofNat index)
      else none) := by
  unfold resolveId
  rw [h.strings.find_eq, ok_bind]
  cases texts.idxOf? name with
  | none => rfl
  | some index =>
    rw [Option.bind_some]
    by_cases hfits : index < UInt16.size
    · obtain ⟨span, hspan, -⟩ := h.exists_recordRange (UInt16.ofNat index)
      have hcarried : (∃ r ∈ records, r.posIndex.toNat = index) ↔ ¬ span.isEmpty := by
        rw [h.isEmpty_recordRange_iff hspan]
        simp [← UInt16.toNat_inj, Nat.mod_eq_of_lt hfits]
      simp only [hfits, hspan, hcarried, if_true, true_and, ok_bind]
      cases span.isEmpty <;> rfl
    · simp [hfits]

/-- Every name is answered. -/
theorem exists_resolveId (h : x.Shows texts records) (name : String) :
    ∃ answer, x.resolveId name = .ok answer :=
  ⟨_, h.resolveId_eq name⟩

/-- A name has the id at which it stands in the table, if some record carries that id. -/
theorem resolveId_eq_some_iff (h : x.Shows texts records) {name : String} {id : UInt16} :
    x.resolveId name = .ok (some id) ↔
      texts[id.toNat]? = some name ∧ ∃ r ∈ records, r.posIndex = id := by
  rw [h.resolveId_eq, Except.ok.injEq, Option.bind_eq_some_iff]
  constructor
  · rintro ⟨index, hindex, hid⟩
    obtain ⟨⟨hfits, r, hr, hcarried⟩, rfl⟩ : _ ∧ UInt16.ofNat index = id := by simpa using hid
    rw [UInt16.toNat_ofNat_of_lt' hfits]
    refine ⟨h.strings.idxOf?_eq_some_iff.mp hindex, r, hr, ?_⟩
    rw [← hcarried, UInt16.ofNat_toNat]
  · rintro ⟨hname, r, hr, rfl⟩
    refine ⟨r.posIndex.toNat, h.strings.idxOf?_eq_some_iff.mpr hname, ?_⟩
    rw [if_pos ⟨r.posIndex.toNat_lt, r, hr, rfl⟩, UInt16.ofNat_toNat]

/-- A name has no id if no record names it as its POS. -/
theorem resolveId_eq_none_iff (h : x.Shows texts records) {name : String} :
    x.resolveId name = .ok none ↔
      ∀ r ∈ records, texts[r.posIndex.toNat]? ≠ some name := by
  constructor
  · intro hnone r hr hname
    rw [h.resolveId_eq_some_iff.mpr ⟨hname, r, hr, rfl⟩] at hnone
    cases hnone
  · intro hall
    obtain ⟨_ | id, hanswer⟩ := h.exists_resolveId name
    · exact hanswer
    · obtain ⟨hname, r, hr, rfl⟩ := h.resolveId_eq_some_iff.mp hanswer
      exact absurd hname (hall r hr)

/-! ## All POS -/

/-- The distinct ids are given. -/
theorem exists_distinctIds (h : x.Shows texts records) :
    ∃ ids, x.distinctIds = .ok ids ∧ ids.toList = idsOf records :=
  ⟨_, x.distinctIds_eq, by rw [h.stored_eq, toList_ofRecords]⟩

/-- The name of an id that a record carries stands in the table. -/
theorem getElem?_of_mem_idsOf (h : x.Shows texts records) {id : UInt16} (hid : id ∈ idsOf records) :
    texts[id.toNat]? = some (entryOf texts id).name := by
  obtain ⟨r, hr, rfl⟩ := mem_idsOf.mp hid
  obtain ⟨s, hs⟩ := h.getElem?_posIndex hr
  simp [entryOf, hs]

/-- The entries are those of the ids that records carry. -/
theorem entries_eq (h : x.Shows texts records) :
    x.entries = .ok ((idsOf records).map (entryOf texts)) := by
  have hread : ∀ id ∈ idsOf records, (do return { name := ← x.strings.textAt id.toNat, id }) =
      (.ok (entryOf texts id) : Except Fault PosEntry) := by
    intro id hid
    obtain ⟨hlt, hs⟩ := List.getElem?_eq_some_iff.mp (h.getElem?_of_mem_idsOf hid)
    rw [h.strings.textAt_eq hlt, hs]
    rfl
  obtain ⟨ids, hids, hlist⟩ := h.exists_distinctIds
  unfold entries
  rw [hids, ok_bind, hlist, mapM_eq_ok_map hread]

/-- The names of the entries ascend, as their ids do. -/
theorem pairwise_names (h : x.Shows texts records) :
    ((idsOf records).map (entryOf texts)).Pairwise fun a b => Text.Before a.name b.name := by
  refine List.pairwise_map.mpr ((pairwise_idsOf h.sorted).imp_of_mem fun {i j} hi hj hij => ?_)
  exact h.strings.before_of_lt (h.getElem?_of_mem_idsOf hi) (h.getElem?_of_mem_idsOf hj)
    (UInt16.lt_iff_toNat_lt.mp hij)

/-- An entry is the name of an id that some record carries. -/
theorem mem_entries_iff (h : x.Shows texts records) {a : PosEntry} :
    a ∈ (idsOf records).map (entryOf texts) ↔
      texts[a.id.toNat]? = some a.name ∧ ∃ r ∈ records, r.posIndex = a.id := by
  rw [List.mem_map, ← mem_idsOf]
  constructor
  · rintro ⟨id, hid, rfl⟩
    exact ⟨h.getElem?_of_mem_idsOf hid, hid⟩
  · rintro ⟨hs, hid⟩
    refine ⟨a.id, hid, ?_⟩
    rw [h.getElem?_of_mem_idsOf hid, Option.some_inj] at hs
    exact congrArg (PosEntry.mk · a.id) hs

end Shows

end PosDictionary.PosIndex
