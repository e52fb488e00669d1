import PosDictionary.Proofs.Definition.Written
import PosDictionary.Proofs.Engine.Lookup

/-!
# Dictionaries that were built

What a builder writes is opened as a dictionary, and the dictionary answers from the definitions:
its POS are the names of the definitions, and the tokens of a stem are made of the forms of the
definition with that name, in their order, `ofBytes_finish`.
-/

namespace PosDictionary.Engine

open Outcome Builder

variable {b : Builder} {ds : List PosDefinition}

/-! ## Opening what was built -/

/-- Every record refers to strings that are written. -/
theorem refersBelow_of_mem_sortedRecords (h : b.Holds ds) (few : b.texts.length ≤ maxStrings)
    {r : TokenRecord} (hr : r ∈ sortedRecords b.texts ds) : r.RefersBelow b.texts.length := by
  obtain ⟨d, hd, f, hf, rfl⟩ := mem_sortedRecords.mp hr
  obtain ⟨hkey, hvalue⟩ := suffixes_mem_texts h hd hf
  exact ⟨toNat_idOf_lt few (name_mem_texts h hd), toNat_idOf_lt few hvalue,
    toNat_idOf_lt few hkey⟩

/-- What a builder has written is opened, and shows its strings and its records. -/
theorem exists_shows_of_finish (h : b.Holds ds) {data : Segments}
    (hfinish : b.finish.outcome = .ok data) :
    ∃ e, (ofBytes data.tokenArray data.stringArray).outcome = .ok e ∧
      e.posIndex.Shows b.texts (sortedRecords b.texts ds) := by
  obtain ⟨few, hserialize, htokens⟩ := written_of_finish h hfinish
  obtain ⟨t, ht, hshows⟩ := StringTable.exists_shows_of_serialize hserialize
  have hrecords := records_of_finish h hfinish
  have hrefers : ∀ r ∈ sortedRecords b.texts ds, r.RefersBelow b.texts.length :=
    fun r => refersBelow_of_mem_sortedRecords h few
  have hsorted := pairwise_sortedRecords b.texts ds
  refine ⟨⟨t, ⟨data.tokenArray⟩⟩, outcome_ofBytes_eq_ok_iff.mpr ⟨ht, rfl, ?_⟩,
    hshows, hrecords, hrefers, hsorted⟩
  refine ⟨?_, ?_, ?_⟩
  · rw [htokens, Bytes.toList_freeze, TokenRecord.length_encodeAll]
    omega
  · rw [hrecords, hshows.len_eq]
    exact hrefers
  · rw [hrecords]
    exact hsorted

/-! ## Answers from the definitions -/

variable {e : Engine} {d : PosDefinition} {pos : String}

/-- The tokens that a definition makes of a stem, one for each of its forms. -/
def tokensBy (d : PosDefinition) (key value : String) (id : UInt16) : List Token :=
  d.forms.map fun f => ⟨key ++ f.keySuffix, value ++ f.valueSuffix, id, f.conjugationId⟩

/-- A record that is written names its definition and no other. -/
theorem names_recordOf_iff (h : b.Holds ds) (few : b.texts.length ≤ maxStrings) (hd : d ∈ ds)
    (f : ConjugationForm) : Names b.texts pos (recordOf b.texts d.name f) ↔ d.name = pos := by
  show b.texts[(idOf b.texts d.name).toNat]? = some pos ↔ _
  rw [getElem?_idOf few (name_mem_texts h hd), Option.some_inj]

/-- A name is that of a POS when a definition has it. -/
theorem exists_names_iff (h : b.Holds ds) (few : b.texts.length ≤ maxStrings) :
    (∃ r ∈ sortedRecords b.texts ds, Names b.texts pos r) ↔
      pos ∈ ds.map PosDefinition.name := by
  rw [List.mem_map]
  constructor
  · rintro ⟨r, hr, hnames⟩
    obtain ⟨d, hd, f, -, rfl⟩ := mem_sortedRecords.mp hr
    exact ⟨d, hd, (names_recordOf_iff h few hd f).mp hnames⟩
  · rintro ⟨d, hd, hname⟩
    obtain ⟨f, hf⟩ := List.exists_mem_of_ne_nil _ (h.forms_ne_nil d hd)
    exact ⟨_, mem_sortedRecords.mpr ⟨d, hd, f, hf, rfl⟩, (names_recordOf_iff h few hd f).mpr hname⟩

/-- The records that name a definition as their POS make the tokens of its forms. -/
theorem tokensFrom_eq (h : b.Holds ds) (few : b.texts.length ≤ maxStrings)
    (hshows : e.posIndex.Shows b.texts (sortedRecords b.texts ds)) (hd : d ∈ ds)
    (key value : String) :
    tokensFrom b.texts (sortedRecords b.texts ds) key value d.name =
      tokensBy d key value (idOf b.texts d.name) := by
  unfold tokensFrom
  rw [← filter_posIndex_eq hshows (getElem?_idOf few (name_mem_texts h hd)),
    filter_sortedRecords h few hd, recordsFor, List.map_map, tokensBy]
  apply List.map_congr_left
  intro f hf
  obtain ⟨hkey, hvalue⟩ := suffixes_mem_texts h hd hf
  have hkey := getElem?_idOf few hkey
  have hvalue := getElem?_idOf few hvalue
  simp [tokenFrom, recordOf, hkey, hvalue]

/-- The POS are the names of the definitions, ascending. -/
theorem exists_posList (h : b.Holds ds) (few : b.texts.length ≤ maxStrings)
    (hshows : e.posIndex.Shows b.texts (sortedRecords b.texts ds)) :
    ∃ names, Dictionary.posList e = .ok names ∧ names.Perm (ds.map PosDefinition.name) ∧
      names.Pairwise Text.Before := by
  have hnames := ascending_namesOf hshows
  refine ⟨_, posList_eq hshows, ?_, hnames⟩
  rw [List.perm_ext_iff_of_nodup hnames.nodup h.nodup]
  intro s
  rw [← exists_names_iff h few, mem_namesOf hshows]

/-- **What is built answers from its definitions.** Definitions that a builder accepts and writes
are opened as a dictionary. Its POS are their names, ascending. A lookup for the name of a
definition appends one token for each of its forms, in their order; a lookup for any other name
answers false and appends nothing. -/
theorem ofBytes_finish (hds : ofDefinitions ds = .ok b) {data : Segments}
    (hdata : b.finish.outcome = .ok data) :
    ∃ e, (ofBytes data.tokenArray data.stringArray).outcome = .ok e ∧
      (∃ names, Dictionary.posList e = .ok names ∧ names.Perm (ds.map PosDefinition.name) ∧
        names.Pairwise Text.Before) ∧
      ∀ (key value pos : String) (out : Array Token),
        (∀ d ∈ ds, d.name = pos → ∃ id, Dictionary.posId e pos = .ok (some id) ∧
          (Dictionary.getTokens e key value pos out).outcome =
            .ok (true, out ++ tokensBy d key value id)) ∧
        ((∀ d ∈ ds, d.name ≠ pos) →
          (Dictionary.getTokens e key value pos out).outcome = .ok (false, out)) := by
  have h := holds_of_ofDefinitions hds
  obtain ⟨few, -, -⟩ := written_of_finish h hdata
  obtain ⟨e, he, hshows⟩ := exists_shows_of_finish h hdata
  refine ⟨e, he, exists_posList h few hshows, fun key value pos out => ⟨?_, ?_⟩⟩
  · rintro d hd rfl
    have hnames := (exists_names_iff h few).mpr (List.mem_map_of_mem hd)
    have hid := getElem?_idOf few (name_mem_texts h hd)
    obtain ⟨f, hf⟩ := List.exists_mem_of_ne_nil _ (h.forms_ne_nil d hd)
    refine ⟨idOf b.texts d.name, hshows.resolveId_eq_some_iff.mpr ⟨hid, _,
      mem_sortedRecords.mpr ⟨d, hd, f, hf, rfl⟩, rfl⟩, ?_⟩
    rw [outcome_getTokens hshows, decide_eq_true hnames, tokensFrom_eq h few hshows hd]
  · intro hnone
    have hnames : ¬ ∃ r ∈ sortedRecords b.texts ds, Names b.texts pos r := by
      rw [exists_names_iff h few, List.mem_map]
      rintro ⟨d, hd, hname⟩
      exact hnone d hd hname
    rw [outcome_getTokens hshows, decide_eq_false hnames, tokensFrom_eq_nil_iff.mpr hnames]
    simp

/-- Two POS, each of which has the name of the other as a suffix. -/
def twoDefinitions : List PosDefinition :=
  [⟨"z", [⟨"k", "a", 1⟩, ⟨"a", "", 2⟩]⟩, ⟨"a", [⟨"z", "k", 3⟩]⟩]

/-- Two definitions, the later name first. -/
theorem ofBytes_finish_twoDefinitions :
    ∃ b data, ofDefinitions twoDefinitions = .ok b ∧ b.finish.outcome = .ok data ∧
      ∃ e, (ofBytes data.tokenArray data.stringArray).outcome = .ok e ∧
        (∃ names, Dictionary.posList e = .ok names ∧ names.Perm ["z", "a"] ∧
          names.Pairwise Text.Before) ∧
        ∀ (key value pos : String) (out : Array Token),
          (∀ d ∈ twoDefinitions, d.name = pos → ∃ id, Dictionary.posId e pos = .ok (some id) ∧
            (Dictionary.getTokens e key value pos out).outcome =
              .ok (true, out ++ tokensBy d key value id)) ∧
          ((∀ d ∈ twoDefinitions, d.name ≠ pos) →
            (Dictionary.getTokens e key value pos out).outcome = .ok (false, out)) := by
  have accepted : (twoDefinitions.map PosDefinition.name).Nodup ∧
      ∀ d ∈ twoDefinitions, d.forms ≠ [] := by decide
  obtain ⟨b, hb⟩ := exists_ofDefinitions_iff.mpr accepted
  have h := holds_of_ofDefinitions hb
  have htexts : b.texts = ["", "a", "k", "z"] := by
    apply texts_eq h (by decide)
    intro s
    simp [twoDefinitions, PosDefinition.strings]
    grind
  obtain ⟨data, hdata⟩ := exists_finish h (by rw [htexts]; decide) (by rw [htexts]; decide)
  exact ⟨b, data, hb, hdata, ofBytes_finish hb hdata⟩

end PosDictionary.Engine
