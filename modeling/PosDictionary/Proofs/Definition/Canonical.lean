import PosDictionary.Proofs.Definition.Written
import PosDictionary.Proofs.PosIndex.Queries

/-!
# What is written for which definitions

The order in which definitions are added does not matter: the strings are sorted, and the records of
one POS come from one definition, so that sorting them leaves no trace of the order of definitions,
`finish_eq_of_perm`. Nothing else is lost. The definitions are read back from the strings and the
records up to their order, `definitionsOf_perm`, so that different definitions are never written as
the same data. So the data stands for the definitions as a set, `finish_determines_definitions`.
-/

namespace PosDictionary.Builder

open Outcome

variable {b b' : Builder} {ds ds' : List PosDefinition}

/-! ## The order of definitions -/

/-- Definitions in another order use the same strings. -/
theorem texts_eq_of_perm (h : b.Holds ds) (h' : b'.Holds ds') (perm : ds.Perm ds') :
    b.texts = b'.texts :=
  texts_eq h b'.ascending_texts fun s => by
    rw [mem_texts h']
    simp only [perm.mem_iff]

/-- The records of definitions in another order are the same. -/
theorem sortedRecords_eq_of_perm (h : b.Holds ds) (h' : b'.Holds ds')
    (few : b.texts.length ≤ maxStrings) (perm : ds.Perm ds') :
    sortedRecords b.texts ds = sortedRecords b.texts ds' := by
  have htexts := texts_eq_of_perm h h' perm
  apply Sorting.eq_of_filter_eq TokenRecord.posIndex
    (pairwise_sortedRecords b.texts ds) (pairwise_sortedRecords b.texts ds')
  intro id
  by_cases hid : ∃ d ∈ ds, idOf b.texts d.name = id
  · obtain ⟨d, hd, rfl⟩ := hid
    have hsame := filter_sortedRecords h' (htexts ▸ few) (perm.mem_iff.mp hd)
    rw [← htexts] at hsame
    rw [filter_sortedRecords h few hd, hsame]
  · have hnone : ∀ cs : List PosDefinition, (∀ d ∈ cs, d ∈ ds) →
        (sortedRecords b.texts cs).filter (·.posIndex = id) = [] := by
      intro cs hcs
      rw [List.filter_eq_nil_iff]
      intro r hr heq
      obtain ⟨d, hd, f, -, rfl⟩ := mem_sortedRecords.mp hr
      exact hid ⟨d, hcs d hd, of_decide_eq_true heq⟩
    rw [hnone ds fun d hd => hd, hnone ds' fun d => perm.mem_iff.mpr]

/-- Definitions in another order are written as the same data, or are refused with the same
error. -/
theorem finish_eq_of_perm (h : b.Holds ds) (h' : b'.Holds ds') (perm : ds.Perm ds') :
    b'.finish = b.finish := by
  have htexts := texts_eq_of_perm h h' perm
  have hencode : b'.encodeBy indexOf = b.encodeBy indexOf := by
    rw [encodeBy_eq finds_indexOf h, encodeBy_eq finds_indexOf h', ← htexts]
    by_cases few : b.texts.length ≤ maxStrings
    · rw [sortedRecords_eq_of_perm h h' few perm]
    · rw [if_pos (Nat.lt_of_not_le few), if_pos (Nat.lt_of_not_le few)]
  have hcount : b'.posCount = b.posCount := by
    rw [h.posCount_eq, h'.posCount_eq, perm.length_eq]
  unfold finish finishBy
  rw [hencode, hcount]

/-! ## Reading definitions back -/

/-- The form that a record stands for. -/
def formOf (texts : List String) (r : TokenRecord) : ConjugationForm :=
  ⟨texts.getD r.keySuffixIndex.toNat "", texts.getD r.valueSuffixIndex.toNat "", r.conjugationId⟩

/-- The definition that the records of an id stand for. -/
def definitionOf (texts : List String) (records : List TokenRecord) (id : UInt16) : PosDefinition :=
  ⟨texts.getD id.toNat "", (records.filter (·.posIndex = id)).map (formOf texts)⟩

/-- The definitions that records stand for, one for each id that they carry. -/
def definitionsOf (texts : List String) (records : List TokenRecord) : List PosDefinition :=
  (PosIndex.idsOf records).map (definitionOf texts records)

/-- The id of a string leads back to it. -/
theorem getD_idOf {texts : List String} {s : String} (few : texts.length ≤ maxStrings)
    (hs : s ∈ texts) : texts.getD (idOf texts s).toNat "" = s := by
  rw [List.getD_eq_getElem?_getD, getElem?_idOf few hs, Option.getD_some]

/-- The record of a form stands for that form. -/
theorem formOf_recordOf (h : b.Holds ds) (few : b.texts.length ≤ maxStrings) {d : PosDefinition}
    (hd : d ∈ ds) {f : ConjugationForm} (hf : f ∈ d.forms) :
    formOf b.texts (recordOf b.texts d.name f) = f := by
  obtain ⟨hkey, hvalue⟩ := suffixes_mem_texts h hd hf
  rw [formOf, recordOf, getD_idOf few hkey, getD_idOf few hvalue]

/-- The records of a definition stand for it. -/
theorem definitionOf_idOf (h : b.Holds ds) (few : b.texts.length ≤ maxStrings) {d : PosDefinition}
    (hd : d ∈ ds) :
    definitionOf b.texts (sortedRecords b.texts ds) (idOf b.texts d.name) = d := by
  have hforms : (recordsFor b.texts d).map (formOf b.texts) = d.forms := by
    rw [recordsFor, List.map_map]
    exact (List.map_congr_left fun f hf => formOf_recordOf h few hd hf).trans (List.map_id _)
  rw [definitionOf, getD_idOf few (name_mem_texts h hd), filter_sortedRecords h few hd, hforms]

/-- The ids that the records carry are those of the names, each once. -/
theorem idsOf_sortedRecords_perm (h : b.Holds ds) (few : b.texts.length ≤ maxStrings) :
    (PosIndex.idsOf (sortedRecords b.texts ds)).Perm (ds.map fun d => idOf b.texts d.name) := by
  have hascend := PosIndex.pairwise_idsOf (pairwise_sortedRecords b.texts ds)
  have hnodup : (ds.map fun d => idOf b.texts d.name).Nodup := by
    rw [List.Nodup, List.pairwise_map]
    refine (List.pairwise_map.mp h.nodup).imp_of_mem fun {c d} hc hd hne heq => ?_
    exact hne ((idOf_inj few (name_mem_texts h hc) (name_mem_texts h hd)).mp heq)
  rw [List.perm_ext_iff_of_nodup (hascend.imp fun hlt => UInt16.ne_of_lt hlt) hnodup]
  intro id
  rw [PosIndex.mem_idsOf, List.mem_map]
  constructor
  · rintro ⟨r, hr, rfl⟩
    obtain ⟨d, hd, f, -, rfl⟩ := mem_sortedRecords.mp hr
    exact ⟨d, hd, rfl⟩
  · rintro ⟨d, hd, rfl⟩
    obtain ⟨f, hf⟩ := List.exists_mem_of_ne_nil _ (h.forms_ne_nil d hd)
    exact ⟨_, mem_sortedRecords.mpr ⟨d, hd, f, hf, rfl⟩, rfl⟩

/-- The strings and the records stand for the definitions, up to their order. -/
theorem definitionsOf_perm (h : b.Holds ds) (few : b.texts.length ≤ maxStrings) :
    (definitionsOf b.texts (sortedRecords b.texts ds)).Perm ds := by
  have hread := (idsOf_sortedRecords_perm h few).map
    (definitionOf b.texts (sortedRecords b.texts ds))
  rw [List.map_map] at hread
  refine hread.trans (.of_eq ?_)
  exact (List.map_congr_left fun d hd => definitionOf_idOf h few hd).trans (List.map_id _)

/-! ## The data that is written -/

/-- The strings are read from the data as they were written. -/
theorem contents_of_finish (h : b.Holds ds) {data : Segments}
    (hdata : b.finish.outcome = .ok data) :
    StringTable.Layout.contents data.stringArray.toList = b.texts.map Text.bytes := by
  obtain ⟨-, hserialize, -⟩ := written_of_finish h hdata
  obtain ⟨-, fits, hstrings⟩ := StringTable.serialize_eq_ok_iff.mp hserialize
  rw [hstrings, Bytes.toList_ofArray, StringTable.Layout.contents_written fits]

/-- **The data stands for the set of definitions.** Of two lists of definitions that are accepted,
one is written as the other, or refused for the same reason, if it has the same definitions in
another order; and if both are written as the same bytes, they have the same definitions. -/
theorem finish_determines_definitions (hds : ofDefinitions ds = .ok b)
    (hds' : ofDefinitions ds' = .ok b') :
    (ds.Perm ds' → b'.finish = b.finish) ∧
      ∀ data data', b.finish.outcome = .ok data → b'.finish.outcome = .ok data' →
        data.tokenArray.toList = data'.tokenArray.toList →
        data.stringArray.toList = data'.stringArray.toList → ds.Perm ds' := by
  have h := holds_of_ofDefinitions hds
  have h' := holds_of_ofDefinitions hds'
  refine ⟨finish_eq_of_perm h h', ?_⟩
  intro data data' hdata hdata' htokens hstrings
  obtain ⟨few, -, -⟩ := written_of_finish h hdata
  have htexts : b.texts = b'.texts := by
    apply (List.map_inj_right fun s t => Text.bytes_inj.mp).mp
    rw [← contents_of_finish h hdata, hstrings, contents_of_finish h' hdata']
  have hrecords : sortedRecords b.texts ds = sortedRecords b'.texts ds' := by
    rw [← records_of_finish h hdata, htokens, records_of_finish h' hdata']
  have hread := definitionsOf_perm h few
  rw [hrecords, htexts] at hread
  exact hread.symm.trans (definitionsOf_perm h' (htexts ▸ few))

/-- A POS with two forms and a POS that has the same strings as name and as suffix. -/
def nounAndVerb : List PosDefinition :=
  [⟨"n", [⟨"v", "", 2⟩, ⟨"", "v", 1⟩]⟩, ⟨"v", [⟨"n", "n", 1⟩]⟩]

/-- Two definitions, offered in both orders. -/
theorem finish_determines_definitions_nounAndVerb :
    ∃ b b' data, ofDefinitions nounAndVerb = .ok b ∧
      ofDefinitions nounAndVerb.reverse = .ok b' ∧
      nounAndVerb.Perm nounAndVerb.reverse ∧ b'.finish = b.finish ∧
      b.finish.outcome = .ok data ∧ b'.finish.outcome = .ok data := by
  obtain ⟨b, hb⟩ : ∃ b, ofDefinitions nounAndVerb = .ok b :=
    exists_ofDefinitions_iff.mpr (by decide)
  obtain ⟨b', hb'⟩ : ∃ b', ofDefinitions nounAndVerb.reverse = .ok b' :=
    exists_ofDefinitions_iff.mpr (by decide)
  have h := holds_of_ofDefinitions hb
  have htexts : b.texts = ["", "n", "v"] := by
    apply texts_eq h (by decide)
    intro s
    simp [nounAndVerb, PosDefinition.strings]
    grind
  obtain ⟨data, hdata⟩ := exists_finish h (by rw [htexts]; decide) (by rw [htexts]; decide)
  obtain ⟨hforth, hback⟩ := finish_determines_definitions hb hb'
  have hsame := hforth (List.reverse_perm _).symm
  have hdata' : b'.finish.outcome = .ok data := by rw [hsame, hdata]
  exact ⟨b, b', data, hb, hb', hback data data hdata hdata' rfl rfl, hsame, hdata, hdata'⟩

end PosDictionary.Builder
