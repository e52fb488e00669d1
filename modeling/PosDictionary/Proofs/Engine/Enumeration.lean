import PosDictionary.Proofs.Engine.Lookup

/-!
# Listing the POS and resolving their names

A dictionary lists its POS by going through its records, and resolves the name of a POS by two
searches. `Engine.Enumerates` says that both agree: the entries that are listed are the names that
are resolved, with the ids that they are resolved to, and all ways of asking whether a name is that
of a POS give one answer. This holds for every opened dictionary, `exists_enumerates`.
-/

namespace PosDictionary.Engine

open Outcome

/-- The dictionary lists these entries, and resolves their names and no others. -/
structure Enumerates (e : Engine) (entries : List PosEntry) : Prop where
  /-- The entries are listed. -/
  posEntries_eq : e.posEntries = .ok entries
  /-- The names are listed in the same order. -/
  posList_eq : Dictionary.posList e = .ok (entries.map PosEntry.name)
  /-- The ids ascend. -/
  ids_ascend : entries.Pairwise fun a b => a.id < b.id
  /-- The names ascend. -/
  names_ascend : entries.Pairwise fun a b => Text.Before a.name b.name
  /-- A name is listed with the id that it is resolved to. -/
  mem_iff_posId : ∀ s id, ⟨s, id⟩ ∈ entries ↔ Dictionary.posId e s = .ok (some id)
  /-- A name is resolved to its index in the table, if some record carries that index. -/
  posId_iff_get : ∀ s id, Dictionary.posId e s = .ok (some id) ↔
    e.strings.get id.toNat = .ok s ∧ ∃ i r, e.tokens.get? i = .ok (some r) ∧ r.posIndex = id
  /-- A name is known to every query, or to none. -/
  known : ∀ s, ∃ found, Dictionary.posId e s = .ok found ∧
    Dictionary.isValidPos e s = .ok found.isSome ∧
    (s ∈ entries.map PosEntry.name ↔ found.isSome) ∧
    ∀ key value out, ∃ after,
      (Dictionary.getTokens e key value s out).outcome = .ok (found.isSome, after)
  /-- A string that no record names as its POS, such as a suffix, is not resolved. -/
  posId_of_not_named : ∀ s,
    (∀ i r, e.tokens.get? i = .ok (some r) → e.strings.get r.posIndex.toNat ≠ .ok s) →
      Dictionary.posId e s = .ok none
  /-- A string at an index that is no id is not resolved. -/
  posId_of_beyond : ∀ s index, UInt16.size ≤ index → e.strings.get index = .ok s →
    Dictionary.posId e s = .ok none

variable {e : Engine} {texts : List String} {records : List TokenRecord}

/-! ## Queries to the table and to the array -/

/-- What the queries find among the records is among them. -/
theorem exists_get?_iff (h : e.posIndex.Shows texts records) {p : TokenRecord → Prop} :
    (∃ i r, e.tokens.get? i = .ok (some r) ∧ p r) ↔ ∃ r ∈ records, p r := by
  have hstored : e.tokens.stored = records := h.stored_eq
  simp only [TokenArray.get?_eq, hstored, Except.ok.injEq, List.mem_iff_getElem?]
  constructor
  · rintro ⟨i, r, hr, hp⟩
    exact ⟨r, ⟨i, hr⟩, hp⟩
  · rintro ⟨r, ⟨i, hr⟩, hp⟩
    exact ⟨i, r, hr, hp⟩

/-- What the table says at an index is the string there. -/
theorem get_eq_ok_iff (h : e.posIndex.Shows texts records) {s : String} {index : Nat} :
    e.strings.get index = .ok s ↔ texts[index]? = some s :=
  StringTable.Shows.get_eq_ok_iff h.strings

/-! ## Names and their ids -/

/-- A name has an id if the table has it there and a record refers to it. -/
theorem posId_eq_some_iff (h : e.posIndex.Shows texts records) {s : String} {id : UInt16} :
    Dictionary.posId e s = .ok (some id) ↔
      e.strings.get id.toNat = .ok s ∧
        ∃ i r, e.tokens.get? i = .ok (some r) ∧ r.posIndex = id := by
  rw [get_eq_ok_iff h, exists_get?_iff h (p := fun r => r.posIndex = id)]
  exact h.resolveId_eq_some_iff

/-- A name is resolved exactly if some record names it as its POS. -/
theorem isSome_posId_iff (h : e.posIndex.Shows texts records) {s : String} {found : Option UInt16}
    (hfound : Dictionary.posId e s = .ok found) :
    found.isSome ↔ ∃ r ∈ records, Names texts s r := by
  have hnone : found = none ↔ ∀ r ∈ records, ¬ Names texts s r := by
    rw [← Except.ok.injEq, ← hfound]
    exact h.resolveId_eq_none_iff
  rw [Option.isSome_iff_ne_none, Ne, hnone]
  simp

/-- All ways to ask whether a name is that of a POS give the same answer. -/
theorem exists_known (h : e.posIndex.Shows texts records) (s : String) :
    ∃ found, Dictionary.posId e s = .ok found ∧
      Dictionary.isValidPos e s = .ok found.isSome ∧
      (s ∈ namesOf texts records ↔ found.isSome) ∧
      ∀ key value out, ∃ after,
        (Dictionary.getTokens e key value s out).outcome = .ok (found.isSome, after) := by
  obtain ⟨found, hfound⟩ := h.exists_resolveId s
  have hsome := isSome_posId_iff h hfound
  have hanswer : decide (∃ r ∈ records, Names texts s r) = found.isSome := by
    rw [Bool.eq_iff_iff, decide_eq_true_iff, hsome]
  refine ⟨found, hfound, isValidPos_eq hfound, (mem_namesOf h).trans hsome.symm, ?_⟩
  intro key value out
  exact ⟨_, hanswer ▸ outcome_getTokens h key value s out⟩

/-- **What is listed is what is resolved.** An opened dictionary lists its POS with ascending ids
and ascending names, and resolves exactly the names that it lists, each to the id that it is listed
with. -/
theorem exists_enumerates {tokenArray stringArray : Bytes}
    (h : (ofBytes tokenArray stringArray).outcome = .ok e) : ∃ entries, e.Enumerates entries := by
  obtain ⟨texts, records, hshows, -, -⟩ := exists_shows_of_ofBytes h
  refine ⟨(PosIndex.idsOf records).map (PosIndex.entryOf texts), {
    posEntries_eq := hshows.entries_eq
    posList_eq := posList_eq hshows
    ids_ascend := List.pairwise_map.mpr (PosIndex.pairwise_idsOf hshows.sorted)
    names_ascend := hshows.pairwise_names
    mem_iff_posId := fun s id => hshows.mem_entries_iff.trans hshows.resolveId_eq_some_iff.symm
    posId_iff_get := fun s id => posId_eq_some_iff hshows
    known := exists_known hshows
    posId_of_not_named := ?_
    posId_of_beyond := ?_ }⟩
  · intro s unnamed
    refine hshows.resolveId_eq_none_iff.mpr ?_
    intro r hr hname
    obtain ⟨i, r, hr, hname⟩ := (exists_get?_iff hshows (p := Names texts s)).mpr ⟨r, hr, hname⟩
    exact unnamed i r hr ((get_eq_ok_iff hshows).mpr hname)
  · intro s index hbeyond hs
    refine hshows.resolveId_eq_none_iff.mpr ?_
    intro r hr hname
    have hsame := hshows.strings.getElem?_inj ((get_eq_ok_iff hshows).mp hs) hname
    exact absurd (hsame ▸ r.posIndex.toNat_lt) (Nat.not_lt.mpr hbeyond)

/-- Two forms of the POS "n" and one of the POS "v", which is a suffix as well; "k" is a suffix
only. -/
def threeForms : Bytes :=
  .ofArray #[1, 0, 2, 0, 0, 0, 7, 0, 1, 0, 0, 0, 2, 0, 8, 0, 2, 0, 0, 0, 0, 0, 9, 0] 1

/-- Three forms of three strings are accepted. -/
theorem outcome_ofBytes_threeForms : (ofBytes threeForms threeStrings).outcome =
    .ok ⟨⟨threeStrings, 3⟩, ⟨threeForms⟩⟩ := by rfl

/-- What an engine with three forms lists. -/
theorem exists_enumerates_threeForms :
    (ofBytes threeForms threeStrings).outcome = .ok ⟨⟨threeStrings, 3⟩, ⟨threeForms⟩⟩ ∧
      ∃ entries, Enumerates ⟨⟨threeStrings, 3⟩, ⟨threeForms⟩⟩ entries :=
  ⟨outcome_ofBytes_threeForms, exists_enumerates outcome_ofBytes_threeForms⟩

end PosDictionary.Engine
