import PosDictionary.Proofs.Engine.Acceptance
import PosDictionary.Proofs.PosIndex.Queries

/-!
# Looking up is scanning

`Engine.scan` goes through the records of a dictionary one by one, reads the name of the POS of
each from the string table, and makes a token of those whose POS has the name that is asked for.
The engine makes two searches instead. `getTokens_eq_scan` says that both give the same tokens in
the same order, for all data that is accepted.
-/

namespace PosDictionary.Engine

open Outcome

/-! ## Scanning -/

/-- The tokens that the record at ordinal `i` makes of a stem: one, if the name of its POS is
`pos`. -/
def scanRecord (e : Engine) (key value pos : String) (i : Nat) : Except Failure (List Token) := do
  match ← Failure.ofFault (e.tokens.get? i) with
  | none => return []
  | some r =>
    if (← e.strings.get r.posIndex.toNat) = pos then
      let keySuffix ← e.strings.get r.keySuffixIndex.toNat
      let valueSuffix ← e.strings.get r.valueSuffixIndex.toNat
      return [⟨key ++ keySuffix, value ++ valueSuffix, r.posIndex, r.conjugationId⟩]
    else
      return []

/-- The tokens of a stem, gathered from all records in the order in which they are stored. -/
def scan (e : Engine) (key value pos : String) : Except Failure (List Token) :=
  List.flatten <$> (List.range e.tokens.len).mapM (e.scanRecord key value pos)

/-! ## Tokens of records -/

/-- The token that a record makes of a stem, with suffixes from `texts`. -/
def tokenFrom (texts : List String) (key value : String) (r : TokenRecord) : Token :=
  ⟨key ++ texts.getD r.keySuffixIndex.toNat "", value ++ texts.getD r.valueSuffixIndex.toNat "",
    r.posIndex, r.conjugationId⟩

/-- The record names `pos` as its POS. -/
def Names (texts : List String) (pos : String) (r : TokenRecord) : Prop :=
  texts[r.posIndex.toNat]? = some pos

instance (texts : List String) (pos : String) : DecidablePred (Names texts pos) :=
  fun r => inferInstanceAs (Decidable (texts[r.posIndex.toNat]? = some pos))

/-- The tokens that records make of a stem, one for each that names `pos` as its POS. -/
def tokensFrom (texts : List String) (records : List TokenRecord) (key value pos : String) :
    List Token :=
  (records.filter (Names texts pos)).map (tokenFrom texts key value)

variable {e : Engine} {texts : List String} {records : List TokenRecord}

/-- No tokens are expected if no record has the name. -/
theorem tokensFrom_eq_nil_iff {key value pos : String} :
    tokensFrom texts records key value pos = [] ↔ ¬ ∃ r ∈ records, Names texts pos r := by
  unfold tokensFrom
  rw [List.map_eq_nil_iff, List.filter_eq_nil_iff]
  simp

/-- An opened dictionary shows the strings that its table shows. -/
theorem shows_of_ofBytes {tokenArray stringArray : Bytes}
    (h : (ofBytes tokenArray stringArray).outcome = .ok e) (hstrings : e.strings.Shows texts) :
    e.posIndex.Shows texts (TokenArray.Layout.records tokenArray.toList) := by
  obtain ⟨-, htokens, wf⟩ := outcome_ofBytes_eq_ok_iff.mp h
  refine ⟨hstrings, ?_, fun r hr => hstrings.len_eq ▸ wf.refersBelow r hr, wf.sorted⟩
  show e.tokens.stored = _
  unfold TokenArray.stored
  rw [htokens]

/-- An opened dictionary shows the strings and the records that its data holds. -/
theorem exists_shows_of_ofBytes {tokenArray stringArray : Bytes}
    (h : (ofBytes tokenArray stringArray).outcome = .ok e) :
    ∃ texts records, e.posIndex.Shows texts records ∧
      texts.map Text.bytes = StringTable.Layout.contents stringArray.toList ∧
      records = TokenArray.Layout.records tokenArray.toList := by
  obtain ⟨hstrings, -, -⟩ := outcome_ofBytes_eq_ok_iff.mp h
  obtain ⟨texts, hshows, htexts⟩ := StringTable.exists_shows_of_ofBytes hstrings
  exact ⟨texts, _, shows_of_ofBytes h hshows, htexts, rfl⟩

/-- The number of records is known. -/
theorem len_eq (h : e.posIndex.Shows texts records) : e.tokens.len = records.length := by
  rw [← TokenArray.length_stored]
  exact congrArg List.length h.stored_eq

/-! ## The names of the POS -/

/-- The names of the ids that records carry. -/
def namesOf (texts : List String) (records : List TokenRecord) : List String :=
  ((PosIndex.idsOf records).map (PosIndex.entryOf texts)).map PosEntry.name

/-- A name is that of a POS when it has an id. -/
theorem isValidPos_eq {pos : String} {found : Option UInt16}
    (h : Dictionary.posId e pos = .ok found) : Dictionary.isValidPos e pos = .ok found.isSome := by
  show (do return (← Dictionary.posId e pos).isSome) = _
  rw [h]
  rfl

/-- The POS are those of the entries, in their order. -/
theorem posList_eq (h : e.posIndex.Shows texts records) :
    Dictionary.posList e = .ok (namesOf texts records) := by
  show (do return (← e.posIndex.entries).map PosEntry.name) = _
  rw [h.entries_eq]
  rfl

/-- The names ascend, since the ids and the strings do. -/
theorem ascending_namesOf (h : e.posIndex.Shows texts records) :
    (namesOf texts records).Pairwise Text.Before :=
  List.pairwise_map.mpr h.pairwise_names

/-- A name is listed exactly if some record names it as its POS. -/
theorem mem_namesOf (h : e.posIndex.Shows texts records) {s : String} :
    s ∈ namesOf texts records ↔ ∃ r ∈ records, Names texts s r := by
  rw [namesOf, List.mem_map]
  constructor
  · rintro ⟨a, ha, rfl⟩
    obtain ⟨hname, r, hr, hid⟩ := h.mem_entries_iff.mp ha
    exact ⟨r, hr, by rwa [Names, hid]⟩
  · rintro ⟨r, hr, hname⟩
    exact ⟨⟨s, r.posIndex⟩, h.mem_entries_iff.mpr ⟨hname, r, hr, rfl⟩, rfl⟩

/-! ## The tokens of a lookup -/

/-- A record gives the token that its indices name. -/
theorem tokenOf_eq (h : e.posIndex.Shows texts records) (key value : String) {r : TokenRecord}
    (hr : r ∈ records) : e.tokenOf key value r.posIndex r = .ok (tokenFrom texts key value r) := by
  obtain ⟨-, hvalue, hkey⟩ := h.refersBelow r hr
  have hstrings : e.strings.Shows texts := h.strings
  unfold tokenOf
  rw [hstrings.textAt_eq hkey, hstrings.textAt_eq hvalue]
  simp [tokenFrom, hkey, hvalue]

/-- The tokens of an id are those of the records that carry it. -/
theorem tokensOf_eq (h : e.posIndex.Shows texts records) (key value : String) (id : UInt16) :
    e.tokensOf key value id =
      .ok ((records.filter (·.posIndex = id)).map (tokenFrom texts key value)) := by
  unfold tokensOf
  rw [h.records_eq, ok_bind, Cursor.toList_ofArray]
  apply mapM_eq_ok_map
  intro r hr
  obtain ⟨hmem, hid⟩ := List.mem_filter.mp hr
  obtain rfl : r.posIndex = id := of_decide_eq_true hid
  exact tokenOf_eq h key value hmem

/-- The records that carry the id of a name are those that name it as their POS. -/
theorem filter_posIndex_eq (h : e.posIndex.Shows texts records) {pos : String} {id : UInt16}
    (hname : texts[id.toNat]? = some pos) :
    records.filter (·.posIndex = id) = records.filter (Names texts pos) := by
  refine List.filter_congr fun r _ => decide_eq_decide.mpr ⟨?_, ?_⟩
  · rintro rfl
    exact hname
  · intro hr
    exact UInt16.toNat_inj.mp (h.strings.getElem?_inj hr hname)

/-- A lookup appends the tokens of the records that name the POS, and answers whether there are
any. -/
theorem outcome_getTokens (h : e.posIndex.Shows texts records) (key value pos : String)
    (out : Array Token) :
    (Dictionary.getTokens e key value pos out).outcome =
      .ok (decide (∃ r ∈ records, Names texts pos r),
        out ++ tokensFrom texts records key value pos) := by
  simp only [Dictionary.getTokens, outcome_bind, outcome_ofExcept]
  obtain ⟨_ | id, hanswer⟩ := h.exists_resolveId pos
  · have hnone : ¬ ∃ r ∈ records, Names texts pos r := fun ⟨r, hr, hnames⟩ =>
      h.resolveId_eq_none_iff.mp hanswer r hr hnames
    rw [hanswer, decide_eq_false hnone, tokensFrom_eq_nil_iff.mpr hnone]
    simp
  · obtain ⟨hname, r, hr, rfl⟩ := h.resolveId_eq_some_iff.mp hanswer
    have hexists : ∃ r ∈ records, Names texts pos r := ⟨r, hr, hname⟩
    rw [hanswer, decide_eq_true hexists, tokensFrom, ← filter_posIndex_eq h hname]
    simp [tokensOf_eq h]

/-! ## The tokens of a scan -/

/-- The tokens that a record makes of a stem: one, if it names `pos` as its POS. -/
def tokensAt (texts : List String) (key value pos : String) (r : TokenRecord) : List Token :=
  if Names texts pos r then [tokenFrom texts key value r] else []

/-- Record by record, the tokens are those of all records. -/
theorem flatten_map_tokensAt (texts : List String) (records : List TokenRecord)
    (key value pos : String) :
    (records.map (tokensAt texts key value pos)).flatten =
      tokensFrom texts records key value pos := by
  induction records with
  | nil => rfl
  | cons r records ih =>
    rw [List.map_cons, List.flatten_cons, ih, tokensAt, tokensFrom, tokensFrom]
    by_cases hr : Names texts pos r
    · simp [hr]
    · simp [hr]

/-- The scan takes a record for a token if its name is asked for. -/
theorem scanRecord_eq (h : e.posIndex.Shows texts records) (key value pos : String) {i : Nat}
    (hi : i < records.length) :
    e.scanRecord key value pos i = .ok (tokensAt texts key value pos records[i]) := by
  have hstrings : e.strings.Shows texts := h.strings
  have hstored : e.tokens.stored = records := h.stored_eq
  obtain ⟨hpos, hvalue, hkey⟩ := h.refersBelow _ (List.getElem_mem hi)
  unfold scanRecord
  rw [TokenArray.get?_eq, hstored, List.getElem?_eq_getElem hi]
  simp only [Failure.ofFault_ok, ok_bind, hstrings.get_of_lt hpos, hstrings.get_of_lt hvalue,
    hstrings.get_of_lt hkey]
  by_cases hname : texts[records[i].posIndex.toNat] = pos
  · simp [tokensAt, Names, tokenFrom, hname, hpos, hvalue, hkey]
  · simp [tokensAt, Names, hname, hpos]

/-- A scan gives the tokens of the records that name the POS. -/
theorem scan_eq (h : e.posIndex.Shows texts records) (key value pos : String) :
    e.scan key value pos = .ok (tokensFrom texts records key value pos) := by
  have hlen : e.tokens.len = (records.map (tokensAt texts key value pos)).length := by
    rw [List.length_map, len_eq h]
  unfold scan
  rw [hlen, mapM_range_eq_ok, map_ok, flatten_map_tokensAt]
  intro i hi
  rw [List.getElem_map]
  exact scanRecord_eq h key value pos (by simpa using hi)

/-- **A lookup finds what a scan of all records finds.** For all data that is accepted, the tokens
that a lookup appends are those of a scan, in the same order. It answers true exactly if there are
any, and leaves the tokens before them as they are. -/
theorem getTokens_eq_scan {tokenArray stringArray : Bytes}
    (h : (ofBytes tokenArray stringArray).outcome = .ok e) (key value pos : String)
    (out : Array Token) :
    ∃ found answer after, e.scan key value pos = .ok found ∧
      (Dictionary.getTokens e key value pos out).outcome = .ok (answer, after) ∧
      after.toList = out.toList ++ found ∧
      (answer = true ↔ found ≠ []) ∧ (answer = false → after = out) := by
  obtain ⟨texts, records, hshows, -, -⟩ := exists_shows_of_ofBytes h
  refine ⟨_, _, _, scan_eq hshows key value pos, outcome_getTokens hshows key value pos out,
    by simp, ?_, ?_⟩
  · rw [decide_eq_true_iff, Ne, tokensFrom_eq_nil_iff, not_not]
  · intro hnone
    simp [tokensFrom_eq_nil_iff.mpr (of_decide_eq_false hnone)]

/-- The string table of "k", "n" and "v". -/
def threeStrings : Bytes :=
  .ofArray #[3, 0, 0, 0, 28, 0, 0, 0, 1, 0, 0, 0, 30, 0, 0, 0, 1, 0, 0, 0, 32, 0, 0, 0, 1, 0, 0, 0,
    107, 0, 110, 0, 118, 0] 0

/-- Two forms of the POS "n", which swap the suffixes "k" and "v". -/
def twoForms : Bytes :=
  .ofArray #[1, 0, 2, 0, 0, 0, 7, 0, 1, 0, 0, 0, 2, 0, 8, 0] 1

/-- The lookup of a name with two forms, behind a token that was there before. -/
theorem getTokens_eq_scan_twoForms :
    (ofBytes twoForms threeStrings).outcome = .ok ⟨⟨threeStrings, 3⟩, ⟨twoForms⟩⟩ ∧
    ∃ found answer after, scan ⟨⟨threeStrings, 3⟩, ⟨twoForms⟩⟩ "a" "b" "n" = .ok found ∧
      (Dictionary.getTokens (⟨⟨threeStrings, 3⟩, ⟨twoForms⟩⟩ : Engine) "a" "b" "n"
        #[Token.blank]).outcome = .ok (answer, after) ∧
      after.toList = [Token.blank] ++ found ∧
      (answer = true ↔ found ≠ []) ∧ (answer = false → after = #[Token.blank]) := by
  have opened : (ofBytes twoForms threeStrings).outcome =
      .ok ⟨⟨threeStrings, 3⟩, ⟨twoForms⟩⟩ := by rfl
  exact ⟨opened, getTokens_eq_scan opened "a" "b" "n" #[Token.blank]⟩

end PosDictionary.Engine
