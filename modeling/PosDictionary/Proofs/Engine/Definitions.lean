import PosDictionary.Proofs.Definition.Canonical
import PosDictionary.Proofs.Engine.Lookup

/-!
# The definitions of a dictionary

Definitions can be read off any dictionary that was opened, by asking it for its POS, for the
records of each of them, and for the strings of these records: `Engine.definitions`. They are always
definitions that a builder takes, `exists_ofDefinitions`. The strings of the table that no
definition uses are lost; so those that are left are few enough to be written, even if the table
has more strings than the indices of a record can tell apart, `length_texts_le`.
-/

namespace PosDictionary.Engine

open Outcome Builder

/-! ## Reading definitions off a dictionary -/

/-- The form that a record stands for. -/
def formAt (e : Engine) (r : TokenRecord) : Except Failure ConjugationForm := do
  let keySuffix ← e.strings.get r.keySuffixIndex.toNat
  let valueSuffix ← e.strings.get r.valueSuffixIndex.toNat
  return ⟨keySuffix, valueSuffix, r.conjugationId⟩

/-- The definition that the records of a POS stand for. -/
def definitionAt (e : Engine) (entry : PosEntry) : Except Failure PosDefinition := do
  let records ← Failure.ofFault (e.posIndex.records entry.id)
  return ⟨entry.name, ← records.toList.mapM e.formAt⟩

/-- The definitions that a dictionary stands for, one for each of its POS. -/
def definitions (e : Engine) : Except Failure (List PosDefinition) := do
  (← Failure.ofFault e.posEntries).mapM e.definitionAt

variable {e : Engine} {texts : List String} {records : List TokenRecord}

/-- A record is read as the form that its indices name. -/
theorem formAt_eq (h : e.posIndex.Shows texts records) {r : TokenRecord} (hr : r ∈ records) :
    e.formAt r = .ok (formOf texts r) := by
  obtain ⟨-, hvalue, hkey⟩ := h.refersBelow r hr
  have hstrings : e.strings.Shows texts := h.strings
  unfold formAt
  rw [hstrings.get_of_lt hkey, hstrings.get_of_lt hvalue]
  simp [formOf, hkey, hvalue]

/-- The definition at an id has the forms of the records with this id, in their order. -/
theorem definitionAt_eq (h : e.posIndex.Shows texts records) (entry : PosEntry) :
    e.definitionAt entry =
      .ok ⟨entry.name, (records.filter (·.posIndex = entry.id)).map (formOf texts)⟩ := by
  have hforms : ∀ r ∈ records.filter (·.posIndex = entry.id),
      e.formAt r = .ok (formOf texts r) := fun r hr =>
    formAt_eq h (List.mem_filter.mp hr).1
  unfold definitionAt
  rw [h.records_eq, Failure.ofFault_ok, ok_bind, Cursor.toList_ofArray, mapM_eq_ok_map hforms]
  rfl

/-- The definitions are those that the strings and the records stand for. -/
theorem definitions_eq (h : e.posIndex.Shows texts records) :
    e.definitions = .ok (definitionsOf texts records) := by
  have hentries : e.posEntries = .ok ((PosIndex.idsOf records).map (PosIndex.entryOf texts)) :=
    h.entries_eq
  unfold definitions
  rw [hentries, Failure.ofFault_ok, ok_bind, mapM_eq_ok_map fun a _ => definitionAt_eq h a,
    List.map_map]
  rfl

/-! ## Taking the definitions -/

/-- Every record belongs to a definition that is read. -/
theorem definitionOf_mem (texts : List String) {r : TokenRecord} (hr : r ∈ records) :
    definitionOf texts records r.posIndex ∈ definitionsOf texts records :=
  List.mem_map_of_mem (PosIndex.mem_idsOf.mpr ⟨r, hr, rfl⟩)

/-- Every record gives a form of its definition. -/
theorem formOf_mem (texts : List String) {r : TokenRecord} (hr : r ∈ records) :
    formOf texts r ∈ (definitionOf texts records r.posIndex).forms :=
  List.mem_map_of_mem (List.mem_filter.mpr ⟨hr, decide_eq_true rfl⟩)

/-- A builder takes the definitions of a dictionary. -/
theorem exists_ofDefinitions (h : e.posIndex.Shows texts records) :
    ∃ b, ofDefinitions (definitionsOf texts records) = .ok b := by
  rw [exists_ofDefinitions_iff]
  constructor
  · have hnames : (definitionsOf texts records).map PosDefinition.name = namesOf texts records := by
      rw [definitionsOf, namesOf, List.map_map, List.map_map]
      rfl
    rw [hnames]
    exact (ascending_namesOf h).nodup
  · intro d hd
    obtain ⟨id, hid, rfl⟩ := List.mem_map.mp hd
    obtain ⟨r, hr, rfl⟩ := PosIndex.mem_idsOf.mp hid
    exact List.ne_nil_of_mem (formOf_mem texts hr)

/-- Every string that the definitions use has an index that a record can hold. -/
theorem exists_index_of_mem_strings (h : e.posIndex.Shows texts records) {d : PosDefinition}
    (hd : d ∈ definitionsOf texts records) {s : String} (hs : s ∈ d.strings) :
    ∃ index : UInt16, texts[index.toNat]? = some s := by
  have hread : ∀ {index : UInt16}, index.toNat < texts.length →
      texts[index.toNat]? = some (texts.getD index.toNat "") := by
    intro index hindex
    simp [hindex]
  obtain ⟨id, hid, rfl⟩ := List.mem_map.mp hd
  rw [PosDefinition.strings, List.mem_cons, List.mem_flatMap] at hs
  rcases hs with rfl | ⟨f, hf, hs⟩
  · exact ⟨id, h.getElem?_of_mem_idsOf hid⟩
  · obtain ⟨r, hr, rfl⟩ := List.mem_map.mp hf
    obtain ⟨-, hvalue, hkey⟩ := h.refersBelow r (List.mem_filter.mp hr).1
    rcases List.mem_pair.mp hs with rfl | rfl
    · exact ⟨r.keySuffixIndex, hread hkey⟩
    · exact ⟨r.valueSuffixIndex, hread hvalue⟩

variable {b : Builder}

/-- The strings that a record refers to are left. -/
theorem name_and_suffixes_mem_texts (hb : b.Holds (definitionsOf texts records)) {r : TokenRecord}
    (hr : r ∈ records) :
    texts.getD r.posIndex.toNat "" ∈ b.texts ∧ texts.getD r.valueSuffixIndex.toNat "" ∈ b.texts ∧
      texts.getD r.keySuffixIndex.toNat "" ∈ b.texts := by
  have hd := definitionOf_mem texts hr
  obtain ⟨hkey, hvalue⟩ := suffixes_mem_texts hb hd (formOf_mem texts hr)
  exact ⟨name_mem_texts hb hd, hvalue, hkey⟩

/-- Every string that is left had an index that a record can hold. -/
theorem exists_index_of_mem_texts (h : e.posIndex.Shows texts records)
    (hb : b.Holds (definitionsOf texts records)) {s : String} (hs : s ∈ b.texts) :
    ∃ index : UInt16, texts[index.toNat]? = some s := by
  obtain ⟨d, hd, hs⟩ := (mem_texts hb).mp hs
  exact exists_index_of_mem_strings h hd hs

/-- The strings that are left are some of those of the table. -/
theorem texts_subset (h : e.posIndex.Shows texts records)
    (hb : b.Holds (definitionsOf texts records)) : b.texts ⊆ texts := by
  intro s hs
  obtain ⟨index, hindex⟩ := exists_index_of_mem_texts h hb hs
  exact List.mem_of_getElem? hindex

/-- The strings that are left are few enough, since the records refer to them. -/
theorem length_texts_le (h : e.posIndex.Shows texts records)
    (hb : b.Holds (definitionsOf texts records)) : b.texts.length ≤ maxStrings := by
  have hsub : b.texts ⊆ texts.take maxStrings := by
    intro s hs
    obtain ⟨index, hindex⟩ := exists_index_of_mem_texts h hb hs
    have hfits : index.toNat < maxStrings := index.toNat_lt
    exact List.mem_of_getElem? ((List.getElem?_take_of_lt hfits).trans hindex)
  have hperm := List.subperm_of_subset b.ascending_texts.nodup hsub
  exact hperm.length_le.trans (List.length_take_le _ _)

end PosDictionary.Engine
