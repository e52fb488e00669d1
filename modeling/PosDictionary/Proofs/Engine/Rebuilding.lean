import Mathlib.Data.List.GetD
import PosDictionary.Proofs.Definition.Offers
import PosDictionary.Proofs.Engine.Definitions
import PosDictionary.Proofs.Engine.RoundTrip
import PosDictionary.Proofs.Engine.Runs
import PosDictionary.Proofs.Engine.StoredForms

/-!
# Building a dictionary again

The definitions that are read off a dictionary can be built again. Nothing that a lookup shows is
lost by this, however the first dictionary was stored: only the strings that no record refers to are
dropped, so that the ids of the POS become smaller and keep their order, `Engine.Renumbers`. The
same definitions are read off the new dictionary. A dictionary that was built is built again as it
was, `rebuilding_preserves_dictionary`.
-/

namespace PosDictionary

open Outcome Builder

/-- The token with another id of its POS. -/
def Token.renumber (renumber : UInt16 → UInt16) (t : Token) : Token :=
  { t with posId := renumber t.posId }

namespace Engine

/-- The dictionary `f` has the POS and the records of `e`, and ids that are renumbered in their
order. -/
structure Renumbers (f e : Engine) (entries : List PosEntry) (renumber : UInt16 → UInt16) :
    Prop where
  /-- These are the POS of `e`. -/
  posEntries_eq : e.posEntries = .ok entries
  /-- Those of `f` have the same names and the new ids. -/
  posEntries_renumbered : f.posEntries = .ok (entries.map fun a => ⟨a.name, renumber a.id⟩)
  /-- Both list the same names. -/
  posList_eq : ∃ names, Dictionary.posList e = .ok names ∧ Dictionary.posList f = .ok names
  /-- The ids keep their order. -/
  renumber_lt : ∀ a ∈ entries, ∀ b ∈ entries, a.id < b.id → renumber a.id < renumber b.id
  /-- No id becomes greater. -/
  renumber_le : ∀ a ∈ entries, renumber a.id ≤ a.id
  /-- Both have as many records. -/
  len_eq : f.tokens.len = e.tokens.len
  /-- Both give the same answer with the same tokens, but for their ids. -/
  getTokens : ∀ key value pos out, ∃ answer, ∃ tokens : List Token,
    (∀ t ∈ tokens, ∃ a ∈ entries, a.id = t.posId) ∧
      (Dictionary.getTokens e key value pos out).outcome = .ok (answer, out ++ tokens) ∧
      (Dictionary.getTokens f key value pos out).outcome =
        .ok (answer, out ++ tokens.map (Token.renumber renumber))

/-! ## Dropping strings -/

/-- The strings `others` are some of `texts`, in the same order, and few enough for ids. -/
structure Keeps (others texts : List String) : Prop where
  ascending : texts.Pairwise Text.Before
  othersAscending : others.Pairwise Text.Before
  subset : others ⊆ texts
  few : others.length ≤ maxStrings

/-- The index among `others` of the string at the index `i` of `texts`. -/
def renumber (texts others : List String) (i : UInt16) : UInt16 :=
  idOf others (texts.getD i.toNat "")

/-- The record that refers to the same strings among `others` as `r` does among `texts`. -/
def renumberRecord (texts others : List String) (r : TokenRecord) : TokenRecord where
  posIndex := renumber texts others r.posIndex
  valueSuffixIndex := renumber texts others r.valueSuffixIndex
  keySuffixIndex := renumber texts others r.keySuffixIndex
  conjugationId := r.conjugationId

section Dropping

variable {texts others : List String} {i j : UInt16}

/-- An index is renumbered to that of the same string. -/
theorem getD_renumber (h : Keeps others texts) (hi : texts.getD i.toNat "" ∈ others) :
    others.getD (renumber texts others i).toNat "" = texts.getD i.toNat "" :=
  getD_idOf h.few hi

/-- Kept strings keep their order. -/
theorem renumber_lt (h : Keeps others texts) (hi : texts.getD i.toNat "" ∈ others)
    (hj : texts.getD j.toNat "" ∈ others) (hjlt : j.toNat < texts.length) (hij : i < j) :
    renumber texts others i < renumber texts others j := by
  have hij : i.toNat < j.toNat := UInt16.lt_iff_toNat_lt.mp hij
  rw [UInt16.lt_iff_toNat_lt, renumber, renumber, toNat_idOf h.few hi, toNat_idOf h.few hj]
  apply Text.idxOf_lt_idxOf h.othersAscending hi hj
  rw [List.getD_eq_getElem _ _ (hij.trans hjlt), List.getD_eq_getElem _ _ hjlt]
  exact List.pairwise_iff_getElem.mp h.ascending _ _ _ hjlt hij

/-- Dropping strings makes no index greater. -/
theorem renumber_le (h : Keeps others texts) (hi : texts.getD i.toNat "" ∈ others)
    (hlt : i.toNat < texts.length) : renumber texts others i ≤ i := by
  rw [UInt16.le_iff_toNat_le, renumber, toNat_idOf h.few hi]
  refine (Text.idxOf_le_idxOf_of_subset h.othersAscending h.ascending h.subset hi).trans ?_
  rw [List.getD_eq_getElem _ _ hlt, h.ascending.nodup.idxOf_getElem]

end Dropping

variable {e f : Engine} {b : Builder} {texts : List String} {records : List TokenRecord}

/-! ## The records of the definitions -/

/-- The records of the definitions that records stand for are these records, renumbered. -/
theorem flatMap_recordsFor (sorted : records.Pairwise fun r s => r.posIndex ≤ s.posIndex)
    (others : List String) :
    (definitionsOf texts records).flatMap (recordsFor others) =
      records.map (renumberRecord texts others) := by
  have hrun : ∀ id ∈ PosIndex.idsOf records,
      recordsFor others (definitionOf texts records id) =
        (records.filter (·.posIndex = id)).map (renumberRecord texts others) := by
    intro id _
    rw [recordsFor, definitionOf, List.map_map]
    refine List.map_congr_left fun r hr => ?_
    obtain rfl : r.posIndex = id := of_decide_eq_true (List.mem_filter.mp hr).2
    rfl
  rw [definitionsOf, List.flatMap_map, List.flatMap_congr hrun, ← List.map_flatMap,
    TokenArray.flatMap_filter_idsOf sorted]

section Rebuilt

variable (h : e.posIndex.Shows texts records) (hb : b.Holds (definitionsOf texts records))

include h hb

/-- Building the definitions again keeps the strings that they use. -/
theorem keeps_texts : Keeps b.texts texts where
  ascending := h.strings.ascending
  othersAscending := b.ascending_texts
  subset := texts_subset h hb
  few := length_texts_le h hb

/-- Renumbering keeps the order of the ids. -/
theorem renumber_lt_of_mem {i j : UInt16} (hi : i ∈ PosIndex.idsOf records)
    (hj : j ∈ PosIndex.idsOf records) (hij : i < j) :
    renumber texts b.texts i < renumber texts b.texts j := by
  obtain ⟨r, hr, rfl⟩ := PosIndex.mem_idsOf.mp hi
  obtain ⟨s, hs, rfl⟩ := PosIndex.mem_idsOf.mp hj
  exact renumber_lt (keeps_texts h hb) (name_and_suffixes_mem_texts hb hr).1
    (name_and_suffixes_mem_texts hb hs).1 (h.refersBelow s hs).1 hij

/-- Renumbering makes no id greater, since strings are only left out. -/
theorem renumber_le_of_mem {i : UInt16} (hi : i ∈ PosIndex.idsOf records) :
    renumber texts b.texts i ≤ i := by
  obtain ⟨r, hr, rfl⟩ := PosIndex.mem_idsOf.mp hi
  exact renumber_le (keeps_texts h hb) (name_and_suffixes_mem_texts hb hr).1 (h.refersBelow r hr).1

/-- The records that are built again are the old ones in their order, renumbered. -/
theorem sortedRecords_definitionsOf :
    sortedRecords b.texts (definitionsOf texts records) =
      records.map (renumberRecord texts b.texts) := by
  rw [sortedRecords, flatMap_recordsFor h.sorted]
  -- The new ids are in the order of the old ones, so that sorting changes nothing.
  apply List.mergeSort_of_pairwise
  rw [List.pairwise_map]
  refine h.sorted.imp_of_mem fun {r s} hr hs hrs => decide_eq_true ?_
  rcases UInt16.lt_or_eq_of_le hrs with hlt | heq
  · exact UInt16.le_of_lt (renumber_lt_of_mem h hb (PosIndex.mem_idsOf.mpr ⟨r, hr, rfl⟩)
      (PosIndex.mem_idsOf.mpr ⟨s, hs, rfl⟩) hlt)
  · exact UInt16.le_of_eq (congrArg (renumber texts b.texts) heq)

/-- The ids that the new records carry are the old ones in their order, renumbered. -/
theorem idsOf_map_renumberRecord :
    PosIndex.idsOf (records.map (renumberRecord texts b.texts)) =
      (PosIndex.idsOf records).map (renumber texts b.texts) := by
  have hsorted := pairwise_sortedRecords b.texts (definitionsOf texts records)
  rw [sortedRecords_definitionsOf h hb] at hsorted
  have hascend : ((PosIndex.idsOf records).map (renumber texts b.texts)).Pairwise (· < ·) :=
    List.pairwise_map.mpr ((PosIndex.pairwise_idsOf h.sorted).imp_of_mem fun hi hj =>
      renumber_lt_of_mem h hb hi hj)
  -- Both sides ascend, so that it is enough to compare their members.
  apply (PosIndex.pairwise_idsOf hsorted).eq_of_mem_iff hascend
  intro id
  simp only [PosIndex.mem_idsOf, List.mem_map, exists_exists_and_eq_and]
  rfl

/-- The definitions can be read from the new strings and records. -/
theorem definitionsOf_rebuilt :
    definitionsOf b.texts (records.map (renumberRecord texts b.texts)) =
      definitionsOf texts records := by
  have hread : ∀ id ∈ PosIndex.idsOf records,
      definitionOf b.texts (records.map (renumberRecord texts b.texts))
        (renumber texts b.texts id) = definitionOf texts records id := by
    intro id hid
    have hd : definitionOf texts records id ∈ definitionsOf texts records :=
      List.mem_map_of_mem hid
    have hback := definitionOf_idOf hb (length_texts_le h hb) hd
    rwa [sortedRecords_definitionsOf h hb] at hback
  rw [definitionsOf, idsOf_map_renumberRecord h hb, List.map_map]
  exact List.map_congr_left hread

/-! ## Answers of the new dictionary -/

/-- An entry keeps its name under its new id. -/
theorem entryOf_renumber {id : UInt16} (hid : id ∈ PosIndex.idsOf records) :
    PosIndex.entryOf b.texts (renumber texts b.texts id) =
      ⟨(PosIndex.entryOf texts id).name, renumber texts b.texts id⟩ := by
  obtain ⟨r, hr, rfl⟩ := PosIndex.mem_idsOf.mp hid
  exact congrArg (PosEntry.mk · _)
    (getD_renumber (keeps_texts h hb) (name_and_suffixes_mem_texts hb hr).1)

/-- A renumbered record makes the same token, but for its id. -/
theorem tokenFrom_renumberRecord (key value : String) {r : TokenRecord} (hr : r ∈ records) :
    tokenFrom b.texts key value (renumberRecord texts b.texts r) =
      (tokenFrom texts key value r).renumber (renumber texts b.texts) := by
  have hkeeps := keeps_texts h hb
  obtain ⟨-, hvalue, hkey⟩ := name_and_suffixes_mem_texts hb hr
  simp only [tokenFrom, renumberRecord, getD_renumber hkeeps hvalue, getD_renumber hkeeps hkey]
  rfl

/-- A renumbered record names the same POS. -/
theorem names_renumberRecord_iff (pos : String) {r : TokenRecord} (hr : r ∈ records) :
    Names b.texts pos (renumberRecord texts b.texts r) ↔ Names texts pos r := by
  have hname := getElem?_idOf (length_texts_le h hb) (name_and_suffixes_mem_texts hb hr).1
  have hlt := (h.refersBelow r hr).1
  show b.texts[(idOf b.texts (texts.getD r.posIndex.toNat "")).toNat]? = some pos ↔ _
  rw [hname, Names, List.getD_eq_getElem _ _ hlt, List.getElem?_eq_getElem hlt]

/-- The tokens are the same but for their ids. -/
theorem tokensFrom_rebuilt (key value pos : String) :
    tokensFrom b.texts (records.map (renumberRecord texts b.texts)) key value pos =
      (tokensFrom texts records key value pos).map (Token.renumber (renumber texts b.texts)) := by
  have hfilter : records.filter (fun r => Names b.texts pos (renumberRecord texts b.texts r)) =
      records.filter (Names texts pos) :=
    List.filter_congr fun r hr => decide_eq_decide.mpr (names_renumberRecord_iff h hb pos hr)
  rw [tokensFrom, tokensFrom, List.filter_map, List.map_map, List.map_map]
  show (records.filter fun r => Names b.texts pos (renumberRecord texts b.texts r)).map _ = _
  rw [hfilter]
  exact List.map_congr_left fun r hr =>
    tokenFrom_renumberRecord h hb key value (List.mem_filter.mp hr).1

/-- A lookup in the new dictionary answers as one in the old, with renumbered tokens. -/
theorem exists_getTokens_rebuilt
    (hf : f.posIndex.Shows b.texts (records.map (renumberRecord texts b.texts)))
    (key value pos : String) (out : Array Token) :
    ∃ answer, ∃ tokens : List Token,
      (∀ t ∈ tokens, ∃ a ∈ (PosIndex.idsOf records).map (PosIndex.entryOf texts),
        a.id = t.posId) ∧
      (Dictionary.getTokens e key value pos out).outcome = .ok (answer, out ++ tokens) ∧
      (Dictionary.getTokens f key value pos out).outcome =
        .ok (answer, out ++ tokens.map (Token.renumber (renumber texts b.texts))) := by
  have hnames : (∃ r ∈ records.map (renumberRecord texts b.texts), Names b.texts pos r) ↔
      ∃ r ∈ records, Names texts pos r := by
    simp only [List.mem_map, exists_exists_and_eq_and]
    exact exists_congr fun r => and_congr_right fun hr => names_renumberRecord_iff h hb pos hr
  refine ⟨_, _, ?_, outcome_getTokens h key value pos out, ?_⟩
  · intro t ht
    obtain ⟨r, hr, rfl⟩ := List.mem_map.mp ht
    have hid := PosIndex.mem_idsOf.mpr ⟨r, (List.mem_filter.mp hr).1, rfl⟩
    exact ⟨_, List.mem_map_of_mem hid, rfl⟩
  · rw [outcome_getTokens hf, tokensFrom_rebuilt h hb, decide_eq_decide.mpr hnames]

/-- The rebuilt engine answers like the one it was built from, under new ids. -/
theorem renumbers_rebuilt
    (hf : f.posIndex.Shows b.texts (records.map (renumberRecord texts b.texts))) :
    f.Renumbers e ((PosIndex.idsOf records).map (PosIndex.entryOf texts))
      (renumber texts b.texts) := by
  have hentries : f.posEntries = .ok (((PosIndex.idsOf records).map (PosIndex.entryOf texts)).map
      fun a => ⟨a.name, renumber texts b.texts a.id⟩) := by
    show f.posIndex.entries = _
    rw [hf.entries_eq, idsOf_map_renumberRecord h hb, List.map_map, List.map_map]
    exact congrArg _ (List.map_congr_left fun id hid => entryOf_renumber h hb hid)
  have hnames : namesOf b.texts (records.map (renumberRecord texts b.texts)) =
      namesOf texts records := by
    have hsame := Except.ok.inj (hf.entries_eq.symm.trans hentries)
    rw [namesOf, namesOf, hsame, List.map_map]
    rfl
  refine {
    posEntries_eq := h.entries_eq
    posEntries_renumbered := hentries
    posList_eq := ⟨_, posList_eq h, hnames ▸ posList_eq hf⟩
    renumber_lt := ?_
    renumber_le := ?_
    len_eq := by rw [len_eq h, len_eq hf, List.length_map]
    getTokens := exists_getTokens_rebuilt h hb hf }
  · simp only [List.forall_mem_map]
    exact fun i hi j hj => renumber_lt_of_mem h hb hi hj
  · simp only [List.forall_mem_map]
    exact fun i hi => renumber_le_of_mem h hb hi

/-- The definitions are written, if the strings that they use are short enough together, and what is
written is opened. -/
theorem exists_rebuilt
    (fits : StringTable.Layout.storedSize
      ((definitionsOf texts records).flatMap PosDefinition.strings).dedup ≤ StringTable.maxSize) :
    ∃ data f, b.finish.outcome = .ok data ∧
      (ofBytes data.tokenArray data.stringArray).outcome = .ok f ∧
      f.posIndex.Shows b.texts (records.map (renumberRecord texts b.texts)) := by
  rw [← length_written_texts hb] at fits
  obtain ⟨data, hdata⟩ := exists_finish hb (length_texts_le h hb) fits
  obtain ⟨f, hf, hshows⟩ := exists_shows_of_finish hb hdata
  rw [sortedRecords_definitionsOf h hb] at hshows
  exact ⟨data, f, hdata, hf, hshows⟩

end Rebuilt

/-- The definitions that are read from what a builder has written are written as the same data
again. -/
theorem finish_of_written {a : Builder} {ds : List PosDefinition} (ha : a.Holds ds) {data : Segments}
    (hdata : a.finish.outcome = .ok data)
    (htexts : texts.map Text.bytes = StringTable.Layout.contents data.stringArray.toList)
    (hrecords : records = TokenArray.Layout.records data.tokenArray.toList)
    (hb : b.Holds (definitionsOf texts records)) : b.finish.outcome = .ok data := by
  obtain ⟨few, -, -⟩ := written_of_finish ha hdata
  rw [contents_of_finish ha hdata] at htexts
  rw [records_of_finish ha hdata] at hrecords
  obtain rfl : texts = a.texts := (List.map_inj_right fun s t => Text.bytes_inj.mp).mp htexts
  subst hrecords
  rw [finish_eq_of_perm ha hb (definitionsOf_perm ha few).symm, hdata]

/-- **A dictionary can be built again from its definitions.** The definitions that are read off a
dictionary are always taken by a builder. Unless the strings that they use are too long, they are
written, and what is written is opened as a dictionary with the same POS, the same records and the
same answers. The ids of the POS are renumbered: they keep their order, and none becomes greater.
The same definitions are read off the new dictionary. If the data of the first dictionary was
written by a builder, whatever was offered to it, then it is written again. -/
theorem rebuilding_preserves_dictionary {tokenArray stringArray : Bytes}
    (h : (ofBytes tokenArray stringArray).outcome = .ok e) :
    ∃ ds b, e.definitions = .ok ds ∧ ofDefinitions ds = .ok b ∧
      (StringTable.Layout.storedSize (ds.flatMap PosDefinition.strings).dedup ≤
          StringTable.maxSize →
        ∃ data f entries renumber, b.finish.outcome = .ok data ∧
          (ofBytes data.tokenArray data.stringArray).outcome = .ok f ∧
          f.Renumbers e entries renumber ∧ f.definitions = .ok ds) ∧
      ∀ offers data, (Builder.empty.after offers).finish.outcome = .ok data →
        data.tokenArray.toList = tokenArray.toList →
        data.stringArray.toList = stringArray.toList → b.finish.outcome = .ok data := by
  obtain ⟨texts, records, hshows, htexts, hrecords⟩ := exists_shows_of_ofBytes h
  obtain ⟨b, hb⟩ := exists_ofDefinitions hshows
  have hholds := holds_of_ofDefinitions hb
  refine ⟨_, b, definitions_eq hshows, hb, ?_, ?_⟩
  · intro fits
    obtain ⟨data, f, hdata, hf, hrebuilt⟩ := exists_rebuilt hshows hholds fits
    refine ⟨data, f, _, _, hdata, hf, renumbers_rebuilt hshows hholds hrebuilt, ?_⟩
    rw [definitions_eq hrebuilt, definitionsOf_rebuilt hshows hholds]
  · intro offers data hdata htokens hstrings
    rw [← hstrings] at htexts
    rw [← htokens] at hrecords
    exact finish_of_written (holds_after offers) hdata htexts hrecords hholds

/-- Two forms of the POS "ab" and one of the POS "b", which is a suffix as well. No record refers to
the empty string. -/
def sharedForms : Bytes :=
  .ofArray #[1, 0, 2, 0, 2, 0, 7, 0, 1, 0, 2, 0, 1, 0, 8, 0, 2, 0, 1, 0, 2, 0, 7, 0] 1

/-- What they stand for. -/
def sharedDefinitions : List PosDefinition :=
  [⟨"ab", [⟨"b", "b", 7⟩, ⟨"ab", "b", 8⟩]⟩, ⟨"b", [⟨"b", "ab", 7⟩]⟩]

/-- Forms that share their suffixes, read out and built again. -/
theorem rebuilding_preserves_dictionary_sharedForms :
    (ofBytes sharedForms sharedStrings).outcome = .ok ⟨⟨sharedStrings, 3⟩, ⟨sharedForms⟩⟩ ∧
      ∃ b data f entries renumber, ofDefinitions sharedDefinitions = .ok b ∧
        b.finish.outcome = .ok data ∧
        (ofBytes data.tokenArray data.stringArray).outcome = .ok f ∧
        f.Renumbers ⟨⟨sharedStrings, 3⟩, ⟨sharedForms⟩⟩ entries renumber ∧
        f.definitions = .ok sharedDefinitions := by
  have opened : (ofBytes sharedForms sharedStrings).outcome =
      .ok ⟨⟨sharedStrings, 3⟩, ⟨sharedForms⟩⟩ := by rfl
  have read : definitions ⟨⟨sharedStrings, 3⟩, ⟨sharedForms⟩⟩ = .ok sharedDefinitions := by
    obtain ⟨texts, records, hshows, htexts, rfl⟩ := exists_shows_of_ofBytes opened
    obtain rfl : texts = ["", "ab", "b"] :=
      (List.map_inj_right fun s t => Text.bytes_inj.mp).mp (htexts.trans (by decide))
    rw [definitions_eq hshows]
    rfl
  obtain ⟨ds, b, hds, hb, hrebuilt, -⟩ := rebuilding_preserves_dictionary opened
  obtain rfl := Except.ok.inj (hds.symm.trans read)
  obtain ⟨data, f, entries, renumber, hdata, hf, hrenumbers, hagain⟩ := hrebuilt (by decide)
  exact ⟨opened, b, data, f, entries, renumber, hb, hdata, hf, hrenumbers, hagain⟩

end Engine

end PosDictionary
