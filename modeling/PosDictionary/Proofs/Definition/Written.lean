import PosDictionary.Proofs.Definition.Accepted
import PosDictionary.Proofs.Search
import PosDictionary.Proofs.StringTable.RoundTrip
import PosDictionary.Proofs.TokenArray.Records

/-!
# What a builder writes

A builder writes the strings of its definitions, ascending, and a record for each form of each
definition. The record of a form refers to strings by their place, `idOf`, and the records are
sorted by their POS. The records of a definition come together in their order, since sorting keeps
the order of records of the same POS and no two definitions have the same name,
`filter_sortedRecords`.

`encodeBy_eq` says that this is what is written whenever the strings are few enough, and that no
string is looked up otherwise; so it does not matter what a lookup does where it fails,
`finishBy_eq`. `written_of_finish` says what a builder has written that has finished.
-/

namespace PosDictionary.Builder

open Outcome

/-! ## Places of strings -/

/-- The place of a string among strings, as an id. -/
def idOf (texts : List String) (s : String) : UInt16 := UInt16.ofNat (texts.idxOf s)

variable {texts : List String} {s t : String}

/-- A string among few enough has its place as id. -/
theorem toNat_idOf (few : texts.length ≤ maxStrings) (hs : s ∈ texts) :
    (idOf texts s).toNat = texts.idxOf s :=
  UInt16.toNat_ofNat_of_lt' (Nat.lt_of_lt_of_le (List.idxOf_lt_length_of_mem hs) few)

/-- The id of a string is an index of the table. -/
theorem toNat_idOf_lt (few : texts.length ≤ maxStrings) (hs : s ∈ texts) :
    (idOf texts s).toNat < texts.length := by
  rw [toNat_idOf few hs]
  exact List.idxOf_lt_length_of_mem hs

/-- The string at its own id is itself. -/
theorem getElem?_idOf (few : texts.length ≤ maxStrings) (hs : s ∈ texts) :
    texts[(idOf texts s).toNat]? = some s := by
  rw [toNat_idOf few hs, List.getElem?_eq_getElem (List.idxOf_lt_length_of_mem hs),
    List.getElem_idxOf]

/-- Different strings have different ids. -/
theorem idOf_inj (few : texts.length ≤ maxStrings) (hs : s ∈ texts) (ht : t ∈ texts) :
    idOf texts s = idOf texts t ↔ s = t := by
  refine ⟨?_, fun heq => by rw [heq]⟩
  intro heq
  have hsame := getElem?_idOf few hs
  rw [heq, getElem?_idOf few ht] at hsame
  exact (Option.some_inj.mp hsame).symm

/-- The id of a string is found by searching the keys of all strings. -/
theorem indexOf_eq (ascending : texts.Pairwise Text.Before) (few : texts.length ≤ maxStrings)
    (hs : s ∈ texts) : indexOf (texts.map Text.bytes).toArray s = .ok (idOf texts s) := by
  have hlt : texts.idxOf s < texts.length := List.idxOf_lt_length_of_mem hs
  have hplace : (texts.map Text.bytes).idxOf? (Text.bytes s) = some (texts.idxOf s) := by
    rw [Text.idxOf?_map_bytes, Text.idxOf?_of_mem hs]
  have hread : ∀ (i : Nat) (h : i < (texts.map Text.bytes).length),
      (texts.map Text.bytes).toArray.getD i [] = (texts.map Text.bytes)[i] := by
    intro i h
    rw [Array.getD_eq_getD_getElem?, List.getElem?_toArray, List.getElem?_eq_getElem h,
      Option.getD_some]
  have hlocate : Id.run (Search.locate (texts.map Text.bytes).toArray.size fun i =>
      compareOfLessAndEq ((texts.map Text.bytes).toArray.getD i []) (Text.bytes s)) =
        .ok (texts.idxOf s) := by
    have hfound := Search.locate_eq (m := Id) (List.pairwise_map.mpr ascending) (Text.bytes s) hread
    rwa [hplace] at hfound
  unfold indexOf
  rw [hlocate]
  exact if_pos (Nat.lt_of_lt_of_le hlt few)

/-- `lookup` gives every index that `indexOf` gives. Where this finds no string or an index that is
too great, it may do as it likes: give some index, or fail in another way. -/
def Finds (lookup : Lookup) : Prop :=
  ∀ keys s index, indexOf keys s = .ok index → lookup keys s = .ok index

/-- The lookups of a builder find what they find. -/
theorem finds_indexOf : Finds indexOf := fun _ _ _ h => h

/-! ## Records of definitions -/

/-- The record of a form of the POS `name`. -/
def recordOf (texts : List String) (name : String) (f : ConjugationForm) : TokenRecord :=
  ⟨idOf texts name, idOf texts f.valueSuffix, idOf texts f.keySuffix, f.conjugationId⟩

/-- The records of a definition, in the order of its forms. -/
def recordsFor (texts : List String) (d : PosDefinition) : List TokenRecord :=
  d.forms.map (recordOf texts d.name)

/-- The records of definitions, in the order of their POS. -/
def sortedRecords (texts : List String) (ds : List PosDefinition) : List TokenRecord :=
  Sorting.sortedBy TokenRecord.posIndex (ds.flatMap (recordsFor texts))

variable {lookup : Lookup}

/-- A definition has the records of its forms, if its strings are found. -/
theorem recordsOf_eq (finds : Finds lookup) (ascending : texts.Pairwise Text.Before)
    (few : texts.length ≤ maxStrings) {d : PosDefinition} (hd : ∀ s ∈ d.strings, s ∈ texts) :
    recordsOf (lookup (texts.map Text.bytes).toArray) d = .ok (recordsFor texts d) := by
  have hfound : ∀ s ∈ texts,
      lookup (texts.map Text.bytes).toArray s = .ok (idOf texts s) := fun s hs =>
    finds _ _ _ (indexOf_eq ascending few hs)
  rw [PosDefinition.strings, List.forall_mem_cons, List.forall_mem_flatMap] at hd
  unfold recordsOf
  rw [hfound _ hd.1, ok_bind]
  apply mapM_eq_ok_map
  intro f hf
  have hkey : f.keySuffix ∈ texts := hd.2 f hf _ (by simp)
  have hvalue : f.valueSuffix ∈ texts := hd.2 f hf _ (by simp)
  rw [hfound _ hvalue, hfound _ hkey]
  rfl

variable {b : Builder} {ds : List PosDefinition}

/-- The records of all definitions are made, as long as every index fits two bytes. -/
theorem records_eq (finds : Finds lookup) (h : b.Holds ds) (few : b.texts.length ≤ maxStrings) :
    b.records (lookup (b.texts.map Text.bytes).toArray) = .ok (sortedRecords b.texts ds) := by
  have hrecords : ∀ d ∈ ds, recordsOf (lookup (b.texts.map Text.bytes).toArray) d =
      .ok (recordsFor b.texts d) := fun d hd =>
    recordsOf_eq finds b.ascending_texts few fun s hs => (mem_texts h).mpr ⟨d, hd, hs⟩
  unfold records
  rw [h.definitions_eq, mapM_eq_ok_map hrecords, ok_bind, ← List.flatMap_def]
  rfl

/-! ## Records of one POS -/

/-- The records are in the order of their ids. -/
theorem pairwise_sortedRecords (texts : List String) (ds : List PosDefinition) :
    (sortedRecords texts ds).Pairwise fun r s => r.posIndex ≤ s.posIndex :=
  Sorting.pairwise_sortedBy TokenRecord.posIndex (ds.flatMap (recordsFor texts))

/-- Each record is that of a form, and each form has one. -/
theorem mem_sortedRecords {r : TokenRecord} :
    r ∈ sortedRecords texts ds ↔ ∃ d ∈ ds, ∃ f ∈ d.forms, recordOf texts d.name f = r := by
  simp [sortedRecords, recordsFor]

/-- The names are among the strings of the table. -/
theorem name_mem_texts (h : b.Holds ds) {d : PosDefinition} (hd : d ∈ ds) : d.name ∈ b.texts :=
  (mem_texts h).mpr ⟨d, hd, List.mem_cons_self⟩

/-- The suffixes are among the strings of the table. -/
theorem suffixes_mem_texts (h : b.Holds ds) {d : PosDefinition} (hd : d ∈ ds)
    {f : ConjugationForm} (hf : f ∈ d.forms) : f.keySuffix ∈ b.texts ∧ f.valueSuffix ∈ b.texts := by
  have hmem : ∀ s ∈ [f.keySuffix, f.valueSuffix], s ∈ b.texts := fun s hs =>
    (mem_texts h).mpr ⟨d, hd, List.mem_cons_of_mem _ (List.mem_flatMap.mpr ⟨f, hf, hs⟩)⟩
  exact ⟨hmem _ (by simp), hmem _ (by simp)⟩

/-- The records of a definition all have the id of its name. -/
theorem filter_recordsFor (texts : List String) (d : PosDefinition) (id : UInt16) :
    (recordsFor texts d).filter (·.posIndex = id) =
      if idOf texts d.name = id then recordsFor texts d else [] := by
  by_cases hid : idOf texts d.name = id
  · rw [if_pos hid, List.filter_eq_self]
    intro r hr
    obtain ⟨f, -, rfl⟩ := List.mem_map.mp hr
    exact decide_eq_true hid
  · rw [if_neg hid, List.filter_eq_nil_iff]
    intro r hr
    obtain ⟨f, -, rfl⟩ := List.mem_map.mp hr
    exact fun heq => hid (of_decide_eq_true heq)

/-- The records with the id of a definition are its own, in the order of its forms. -/
theorem filter_sortedRecords (h : b.Holds ds) (few : b.texts.length ≤ maxStrings)
    {d : PosDefinition} (hd : d ∈ ds) :
    (sortedRecords b.texts ds).filter (·.posIndex = idOf b.texts d.name) =
      recordsFor b.texts d := by
  obtain ⟨before, behind, hsplit⟩ := List.append_of_mem hd
  -- No other definition has this name, so none has records with this id.
  have hothers : ∀ c ∈ before ++ behind, c.name ≠ d.name := by
    have nodup := h.nodup
    rw [hsplit, List.map_append, List.map_cons, List.nodup_middle, List.nodup_cons,
      ← List.map_append] at nodup
    exact fun c hc heq => nodup.1 (List.mem_map.mpr ⟨c, hc, heq⟩)
  have hnone : ∀ c ∈ before ++ behind,
      (recordsFor b.texts c).filter (·.posIndex = idOf b.texts d.name) = [] := by
    intro c hc
    have hmem : c ∈ ds := by
      rw [hsplit]
      rcases List.mem_append.mp hc with hc | hc <;> simp [hc]
    rw [filter_recordsFor, if_neg]
    rw [idOf_inj few (name_mem_texts h hmem) (name_mem_texts h hd)]
    exact hothers c hc
  obtain ⟨hbefore, hbehind⟩ := List.forall_mem_append.mp hnone
  unfold sortedRecords
  rw [Sorting.filter_sortedBy, List.filter_flatMap, hsplit, List.flatMap_append,
    List.flatMap_cons, List.flatMap_eq_nil_iff.mpr hbefore, List.flatMap_eq_nil_iff.mpr hbehind,
    filter_recordsFor, if_pos rfl, List.nil_append, List.append_nil]

/-! ## Writing -/

/-- A builder with few enough strings writes them and the records of its definitions. With more it
looks up none of them. -/
theorem encodeBy_eq (finds : Finds lookup) (h : b.Holds ds) :
    b.encodeBy lookup =
      if maxStrings < b.texts.length then .error (.capacityExceeded "string_table" maxStrings)
      else do
        let stringArray ← StringTable.serialize b.texts
        return (b.texts, sortedRecords b.texts ds,
          ⟨(TokenRecord.encodeAll (sortedRecords b.texts ds)).freeze 0, stringArray⟩) := by
  have hlen : b.strings.len = b.texts.length := (StringSet.length_toSortedList _).symm
  unfold encodeBy
  simp only [hlen]
  by_cases few : b.texts.length ≤ maxStrings
  · rw [if_neg (Nat.not_lt.mpr few), if_neg (Nat.not_lt.mpr few), records_eq finds h few, ok_bind]
  · rw [if_pos (Nat.lt_of_not_le few), if_pos (Nat.lt_of_not_le few)]

/-- What is written does not depend on what a lookup does where it fails. -/
theorem finishBy_eq (finds : Finds lookup) (h : b.Holds ds) : b.finishBy lookup = b.finish := by
  rw [finish, finishBy, finishBy, encodeBy_eq finds h, encodeBy_eq finds_indexOf h]

/-- How a builder finishes. -/
theorem outcome_finish (h : b.Holds ds) :
    b.finish.outcome =
      if maxStrings < b.texts.length then .error (.capacityExceeded "string_table" maxStrings)
      else do
        let stringArray ← StringTable.serialize b.texts
        return ⟨(TokenRecord.encodeAll (sortedRecords b.texts ds)).freeze 0, stringArray⟩ := by
  rw [finish, finishBy, outcome_bind, outcome_ofExcept, encodeBy_eq finds_indexOf h]
  split
  · rfl
  · rw [bind_assoc]
    rfl

/-- A builder that finishes has few enough strings, and has written them and the records of its
definitions. -/
theorem written_of_finish (h : b.Holds ds) {data : Segments}
    (hfinish : b.finish.outcome = .ok data) :
    b.texts.length ≤ maxStrings ∧ StringTable.serialize b.texts = .ok data.stringArray ∧
      data.tokenArray = (TokenRecord.encodeAll (sortedRecords b.texts ds)).freeze 0 := by
  rw [outcome_finish h] at hfinish
  by_cases few : b.texts.length ≤ maxStrings
  · rw [if_neg (Nat.not_lt.mpr few)] at hfinish
    obtain ⟨stringArray, hserialize, hdata⟩ := bind_eq_ok.mp hfinish
    cases hdata
    exact ⟨few, hserialize, rfl⟩
  · rw [if_pos (Nat.lt_of_not_le few)] at hfinish
    cases hfinish

/-- The records are read from the data as they were written. -/
theorem records_of_finish (h : b.Holds ds) {data : Segments}
    (hfinish : b.finish.outcome = .ok data) :
    TokenArray.Layout.records data.tokenArray.toList = sortedRecords b.texts ds := by
  obtain ⟨-, -, htokens⟩ := written_of_finish h hfinish
  rw [htokens, Bytes.toList_freeze, TokenArray.records_encodeAll]

/-- The stored form of the strings that a builder writes is as long as that of the strings that its
definitions use. -/
theorem length_written_texts (h : b.Holds ds) :
    (StringTable.Layout.written b.texts).length =
      StringTable.Layout.storedSize (ds.flatMap PosDefinition.strings).dedup := by
  rw [StringTable.Layout.length_written_eq_storedSize,
    StringTable.storedSize_eq_of_perm (texts_perm_dedup h)]

/-- A builder with few enough strings, which are short enough together, finishes. -/
theorem exists_finish (h : b.Holds ds) (few : b.texts.length ≤ maxStrings)
    (fits : (StringTable.Layout.written b.texts).length ≤ StringTable.maxSize) :
    ∃ data, b.finish.outcome = .ok data := by
  have hserialize := StringTable.serialize_eq_ok_iff.mpr
    ⟨b.ascending_texts, fits, rfl⟩
  rw [outcome_finish h, if_neg (Nat.not_lt.mpr few), hserialize]
  exact ⟨_, rfl⟩

end PosDictionary.Builder
