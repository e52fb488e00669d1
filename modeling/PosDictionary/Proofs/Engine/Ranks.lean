import Mathlib.Algebra.Ring.Nat
import PosDictionary.Proofs.Definition.Canonical
import PosDictionary.Proofs.Definition.Offers
import PosDictionary.Proofs.Engine.RoundTrip

/-!
# What is written, said by ranks

A builder finds the place of a string by searching and brings the records into order by sorting them
afterwards. What it writes can be said without either: the strings ascend, the place of each is its
rank, `Text.rank`, and the records are those of the definitions one after the other, in ascending
order of their names, `rankedRecords`. The names are interned as well, so that ascending names have
ascending ranks and the sorted records are in the same order, `sortedRecords_eq`.

The string table that is read from the data searches in its own way and finds the same places, and
the dictionary counts as many POS as the builder holds, `finish_writes_ranks`.
-/

namespace PosDictionary

/-- The rank of a text among texts: the number of those that come before it. -/
def Text.rank (texts : List String) (s : String) : Nat := texts.countP fun t => Text.Before t s

namespace Builder

open Outcome

/-- The definitions in ascending order of their names. -/
def byName (ds : List PosDefinition) : List PosDefinition :=
  Sorting.sortedBy (fun d => Text.bytes d.name) ds

/-- The record of a form of the POS `name`, which refers to strings by their ranks. -/
def rankedRecord (texts : List String) (name : String) (f : ConjugationForm) : TokenRecord where
  posIndex := .ofNat (Text.rank texts name)
  valueSuffixIndex := .ofNat (Text.rank texts f.valueSuffix)
  keySuffixIndex := .ofNat (Text.rank texts f.keySuffix)
  conjugationId := f.conjugationId

/-- The records of definitions one after the other, each with its forms in their order. -/
def rankedRecords (texts : List String) (ds : List PosDefinition) : List TokenRecord :=
  ds.flatMap fun d => d.forms.map (rankedRecord texts d.name)

variable {b : Builder} {ds : List PosDefinition}

/-! ## Ranks -/

/-- The id of a string is its rank. -/
theorem idOf_eq_rank {texts : List String} (ascending : texts.Pairwise Text.Before) {s : String}
    (hs : s ∈ texts) : idOf texts s = .ofNat (Text.rank texts s) := by
  rw [idOf, Text.idxOf_eq_countP ascending hs, Text.rank]

/-- Ranks among few enough strings fit two bytes. -/
theorem toNat_rank {texts : List String} (ascending : texts.Pairwise Text.Before)
    (few : texts.length ≤ maxStrings) {s : String} (hs : s ∈ texts) :
    (UInt16.ofNat (Text.rank texts s)).toNat = Text.rank texts s := by
  rw [← idOf_eq_rank ascending hs, toNat_idOf few hs, Text.idxOf_eq_countP ascending hs, Text.rank]

/-- The records of a definition refer to strings by their ranks. -/
theorem recordsFor_eq (h : b.Holds ds) {d : PosDefinition} (hd : d ∈ ds) :
    recordsFor b.texts d = d.forms.map (rankedRecord b.texts d.name) := by
  refine List.map_congr_left fun f hf => ?_
  obtain ⟨hkey, hvalue⟩ := suffixes_mem_texts h hd hf
  have hrank : ∀ s ∈ b.texts, idOf b.texts s = .ofNat (Text.rank b.texts s) := fun s =>
    idOf_eq_rank b.ascending_texts
  rw [recordOf, hrank _ (name_mem_texts h hd), hrank _ hkey, hrank _ hvalue, rankedRecord]

/-! ## Definitions by their names -/

/-- In the order of their names, they are the same definitions. -/
theorem byName_perm (ds : List PosDefinition) : (byName ds).Perm ds :=
  List.mergeSort_perm ds _

/-- In the order of their names, the names ascend. -/
theorem ascending_byName (h : b.Holds ds) :
    (byName ds).Pairwise fun c d => Text.Before c.name d.name := by
  have hle := Sorting.pairwise_sortedBy (fun d : PosDefinition => Text.bytes d.name) ds
  have hne := List.pairwise_map.mp (((byName_perm ds).map PosDefinition.name).nodup_iff.mpr h.nodup)
  refine (hle.and hne).imp fun hcd => ?_
  exact Std.lt_of_le_of_ne hcd.1 fun heq => hcd.2 (Text.bytes_inj.mp heq)

/-- The records of definitions in the order of their names are in the order of their POS. -/
theorem pairwise_flatMap_recordsFor (h : b.Holds ds) (few : b.texts.length ≤ maxStrings) :
    ((byName ds).flatMap (recordsFor b.texts)).Pairwise fun r s => r.posIndex ≤ s.posIndex := by
  have hnames : ∀ d ∈ byName ds, d.name ∈ b.texts := fun d hd =>
    name_mem_texts h ((byName_perm ds).mem_iff.mp hd)
  rw [List.pairwise_flatMap]
  constructor
  · intro d _
    rw [recordsFor, List.pairwise_map]
    exact List.pairwise_of_forall fun _ _ => UInt16.le_refl _
  · refine (ascending_byName h).imp_of_mem fun {c d} hc hd hcd => ?_
    intro r hr s hs
    obtain ⟨f, -, rfl⟩ := List.mem_map.mp hr
    obtain ⟨g, -, rfl⟩ := List.mem_map.mp hs
    have hlt := Text.idxOf_lt_idxOf b.ascending_texts (hnames c hc) (hnames d hd) hcd
    rw [UInt16.le_iff_toNat_le, recordOf, recordOf, toNat_idOf few (hnames c hc),
      toNat_idOf few (hnames d hd)]
    exact Nat.le_of_lt hlt

/-- Sorted by their POS, the records are those of the definitions in the order of their names. -/
theorem sortedRecords_eq (h : b.Holds ds) (few : b.texts.length ≤ maxStrings) :
    sortedRecords b.texts ds = rankedRecords b.texts (byName ds) := by
  have hperm := byName_perm ds
  -- A builder may take the definitions in this order too, and then sorting moves no record.
  obtain ⟨b', hb'⟩ := @exists_ofDefinitions_iff (byName ds) |>.mpr
    ⟨(hperm.map PosDefinition.name).nodup_iff.mpr h.nodup,
      fun d hd => h.forms_ne_nil d (hperm.mem_iff.mp hd)⟩
  rw [sortedRecords_eq_of_perm h (holds_of_ofDefinitions hb') few hperm.symm, sortedRecords,
    Sorting.sortedBy, List.mergeSort_of_pairwise]
  · exact List.flatMap_congr fun d hd => recordsFor_eq h (hperm.mem_iff.mp hd)
  · exact (pairwise_flatMap_recordsFor h few).imp fun hle => decide_eq_true hle

/-! ## The data that is written -/

/-- There is a record for each form. -/
theorem length_rankedRecords (texts : List String) (ds : List PosDefinition) :
    (rankedRecords texts ds).length = (ds.map fun d => d.forms.length).sum := by
  simp [rankedRecords, List.length_flatMap]

/-- The data has the strings of the definitions, ascending, and their records by ranks. -/
structure WritesRanks (ds : List PosDefinition) (texts : List String) (data : Segments) : Prop where
  /-- The strings are those that the definitions use. -/
  mem_texts : ∀ s, s ∈ texts ↔ ∃ d ∈ ds, s ∈ d.strings
  /-- They are in strictly ascending byte order. -/
  ascending : texts.Pairwise Text.Before
  /-- Their ranks fit two bytes. -/
  rank_fits : ∀ s ∈ texts, (UInt16.ofNat (Text.rank texts s)).toNat = Text.rank texts s
  /-- The one piece is opened as their table. It finds each of them at its rank and nothing else. -/
  exists_table : ∃ t, StringTable.ofBytes data.stringArray = .ok t ∧
    t.strings = .ok (Cursor.ofArray texts.toArray) ∧
    ∀ s, t.find s = .ok (if s ∈ texts then some (Text.rank texts s) else none)
  /-- The definitions stand in ascending order of their names. -/
  byName_ascending : (byName ds).Perm ds ∧
    (byName ds).Pairwise fun c d => Text.Before c.name d.name
  /-- The other piece is opened as an array of their records in this order. -/
  exists_array : ∃ a, TokenArray.ofBytes data.tokenArray = .ok a ∧
    a.records = .ok (Cursor.ofArray (rankedRecords texts (byName ds)).toArray)
  /-- The record of each form takes eight bytes. -/
  len_tokenArray : data.tokenArray.len = 8 * (ds.map fun d => d.forms.length).sum

/-- A string is found at its rank, or not at all. -/
theorem idxOf?_eq_rank {texts : List String} (ascending : texts.Pairwise Text.Before) (s : String) :
    texts.idxOf? s = if s ∈ texts then some (Text.rank texts s) else none := by
  split
  next hs => rw [Text.idxOf?_of_mem hs, Text.idxOf_eq_countP ascending hs, Text.rank]
  next hs => exact List.idxOf?_eq_none_iff.mpr hs

/-- Every form takes eight bytes. -/
theorem length_tokenArray (h : b.Holds ds) {data : Segments} (hdata : b.finish.outcome = .ok data) :
    data.tokenArray.len = 8 * (ds.map fun d => d.forms.length).sum := by
  obtain ⟨few, -, htokens⟩ := written_of_finish h hdata
  have hperm := (byName_perm ds).map fun d => d.forms.length
  rw [← Bytes.length_toList, htokens, Bytes.toList_freeze, TokenRecord.length_encodeAll,
    sortedRecords_eq h few, length_rankedRecords, hperm.sum_nat]

/-- What a builder writes is ordered by ranks. -/
theorem writesRanks (h : b.Holds ds) {data : Segments} (hdata : b.finish.outcome = .ok data) :
    WritesRanks ds b.texts data := by
  obtain ⟨few, hserialize, -⟩ := written_of_finish h hdata
  obtain ⟨t, ht, hshows⟩ := StringTable.exists_shows_of_serialize hserialize
  refine {
    mem_texts := fun s => Builder.mem_texts h
    ascending := b.ascending_texts
    rank_fits := fun s => toNat_rank b.ascending_texts few
    exists_table := ⟨t, ht, hshows.strings_eq, fun s => ?_⟩
    byName_ascending := ⟨byName_perm ds, ascending_byName h⟩
    exists_array := ⟨⟨data.tokenArray⟩, ?_, ?_⟩
    len_tokenArray := length_tokenArray h hdata }
  · rw [hshows.find_eq, idxOf?_eq_rank b.ascending_texts]
  · have hwhole : data.tokenArray.len % TokenRecord.size = 0 := by
      rw [length_tokenArray h hdata]
      exact Nat.mul_mod_right 8 _
    rw [TokenArray.ofBytes, checkFormat, if_pos (beq_iff_eq.mpr hwhole)]
    rfl
  · rw [TokenArray.records_eq, TokenArray.stored, records_of_finish h hdata,
      sortedRecords_eq h few]

/-! ## The dictionary that is opened -/

/-- What is opened reports its records, its strings and its POS. -/
theorem ofBytes_eq_of_shows {tokenArray stringArray : Bytes} {e : Engine} {texts : List String}
    {records : List TokenRecord} (he : (Engine.ofBytes tokenArray stringArray).outcome = .ok e)
    (hshows : e.posIndex.Shows texts records) :
    Engine.ofBytes tokenArray stringArray =
      ⟨.ok e, [.loaded records.length texts.length (PosIndex.idsOf records).length]⟩ := by
  obtain ⟨ids, hids, hlist⟩ := hshows.exists_distinctIds
  rw [Engine.outcome_ofBytes] at he
  rw [Engine.ofBytes, he, ← hlist, ← Engine.len_eq hshows, ← hshows.strings.len_eq]
  simp only [bind, Traced.bind, Traced.ofExcept, hids, Failure.ofFault_ok]
  rfl

/-- The POS that are listed are the names of the definitions, ascending. -/
theorem posList_eq_byName (h : b.Holds ds) (few : b.texts.length ≤ maxStrings) {e : Engine}
    (hshows : e.posIndex.Shows b.texts (sortedRecords b.texts ds)) :
    Dictionary.posList e = .ok ((byName ds).map PosDefinition.name) := by
  obtain ⟨names, hnames, perm, ascending⟩ := Engine.exists_posList h few hshows
  have hascending := List.pairwise_map.mpr (ascending_byName h)
  have hperm := (byName_perm ds).map PosDefinition.name
  rw [hnames, ascending.eq_of_mem_iff hascending fun s => by rw [perm.mem_iff, hperm.mem_iff]]

/-- What a builder has written is opened, reports as many POS as the builder holds, and lists their
names. -/
theorem exists_ofBytes_of_finish (h : b.Holds ds) {data : Segments}
    (hdata : b.finish.outcome = .ok data) :
    ∃ e, Engine.ofBytes data.tokenArray data.stringArray =
        ⟨.ok e, [.loaded (ds.map fun d => d.forms.length).sum b.texts.length b.posCount]⟩ ∧
      Dictionary.posList e = .ok ((byName ds).map PosDefinition.name) := by
  obtain ⟨few, -, -⟩ := written_of_finish h hdata
  obtain ⟨e, he, hshows⟩ := Engine.exists_shows_of_finish h hdata
  refine ⟨e, ?_, posList_eq_byName h few hshows⟩
  have hperm := (byName_perm ds).map fun d => d.forms.length
  rw [ofBytes_eq_of_shows he hshows, (idsOf_sortedRecords_perm h few).length_eq, List.length_map,
    sortedRecords_eq h few, length_rankedRecords, hperm.sum_nat, h.posCount_eq]

/-- **What is written refers to strings by their ranks.** When a builder that was given any offers
finishes, the string table that it writes lists the strings of the accepted definitions in ascending
byte order, and the token array holds a record for each form: the definitions come in ascending
order of their names, the forms of each in their order, and the indices of a record are the ranks of
the name and of the suffixes. The builder searches for the place of a string in one way and the
table in another, and both find its rank; other strings are not found. The dictionary that is opened
on the data has as many POS as the builder holds. -/
theorem finish_writes_ranks (offers : List PosDefinition) {data : Segments}
    (hdata : (empty.after offers).finish.outcome = .ok data) :
    ∃ texts, texts = (empty.after offers).strings.toSortedList ∧
      WritesRanks (empty.accepted offers) texts data ∧
      (∀ s ∈ texts, indexOf (texts.map Text.bytes).toArray s = .ok (.ofNat (Text.rank texts s))) ∧
      ∃ e names, Engine.ofBytes data.tokenArray data.stringArray =
          ⟨.ok e, [.loaded ((empty.accepted offers).map fun d => d.forms.length).sum texts.length
            (empty.after offers).posCount]⟩ ∧
        Dictionary.posList e = .ok names ∧
        names = (byName (empty.accepted offers)).map PosDefinition.name ∧
        names.length = (empty.after offers).posCount := by
  have h := holds_after offers
  obtain ⟨few, -, -⟩ := written_of_finish h hdata
  obtain ⟨e, he, hnames⟩ := exists_ofBytes_of_finish h hdata
  refine ⟨_, rfl, writesRanks h hdata, fun s hs => ?_, e, _, he, hnames, rfl, ?_⟩
  · rw [indexOf_eq (ascending_texts _) few hs, idOf_eq_rank (ascending_texts _) hs]
  · rw [List.length_map, (byName_perm _).length_eq, h.posCount_eq]

/-- Two POS that share the empty suffix. The name of the second comes before that of the first. -/
def verbAndNoun : List PosDefinition :=
  [⟨"Verb", [⟨"", "", 20⟩, ⟨"d", "ed", 21⟩]⟩, ⟨"Noun", [⟨"", "", 10⟩, ⟨"s", "s", 11⟩]⟩]

/-- A verb and a noun, of which the noun comes first. -/
theorem finish_writes_ranks_verbAndNoun :
    ∃ data texts, (empty.after verbAndNoun).finish.outcome = .ok data ∧
      WritesRanks verbAndNoun texts data ∧ texts = ["", "Noun", "Verb", "d", "ed", "s"] ∧
      rankedRecords texts (byName verbAndNoun) =
        [⟨1, 0, 0, 10⟩, ⟨1, 5, 5, 11⟩, ⟨2, 0, 0, 20⟩, ⟨2, 4, 3, 21⟩] ∧
      (∀ s ∈ texts, indexOf (texts.map Text.bytes).toArray s = .ok (.ofNat (Text.rank texts s))) ∧
      ∃ e names, (Engine.ofBytes data.tokenArray data.stringArray).outcome = .ok e ∧
        Dictionary.posList e = .ok names ∧ names.length = 2 := by
  have haccepted : empty.accepted verbAndNoun = verbAndNoun :=
    accepted_eq_self (by decide) (by decide)
  have h := haccepted ▸ holds_after verbAndNoun
  have htexts : (empty.after verbAndNoun).texts = ["", "Noun", "Verb", "d", "ed", "s"] := by
    apply texts_eq h (by decide)
    intro s
    simp [verbAndNoun, PosDefinition.strings]
    grind
  obtain ⟨data, hdata⟩ := exists_finish h (by rw [htexts]; decide) (by rw [htexts]; decide)
  obtain ⟨texts, hsorted, hwrites, hindex, e, names, he, hnames, -, hcount⟩ :=
    finish_writes_ranks verbAndNoun hdata
  rw [haccepted] at hwrites
  have hlisted := hsorted.trans htexts
  have hnouns : byName verbAndNoun = verbAndNoun.reverse := by
    have hbefore : ¬ Text.bytes "Verb" ≤ Text.bytes "Noun" := by decide
    simp [byName, verbAndNoun, List.mergeSort, List.MergeSort.Internal.splitInTwo, hbefore]
  refine ⟨data, texts, hdata, hwrites, hlisted, ?_, hindex, e, names, by rw [he], hnames, ?_⟩
  · rw [hlisted, hnouns]
    decide
  · rw [hcount, h.posCount_eq]
    rfl

end Builder

end PosDictionary
