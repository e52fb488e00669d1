import PosDictionary.Proofs.Engine.Lookup

/-!
# No query faults

Once data is accepted, every query is answered. No byte outside the data is read, no record outside
the array is taken, and no string is made up where the table holds no text.

* `PosIndex.Answers`: the questions about POS are answered for every accepted table and for any
  array of records at all, since a search stays among the positions that it is given, whatever it
  finds there;
* `Engine.Answers`: all queries of an opened dictionary are answered;
* `Engine.AnswersThrough`: they are answered in the same way when strings are read by another
  reader, as long as this gives the texts that the table holds. So no answer depends on what is
  read elsewhere, where `StringTable.textAt` falls back on the empty string.
-/

namespace PosDictionary

open Outcome

/-! ## Readers of strings -/

namespace StringTable

/-- `read` gives every text that the table holds. Where the table holds none it may do as it
likes: give some other text, or fault. -/
def ReadBy (t : StringTable) (read : Nat → Except Fault String) : Prop :=
  ∀ (i : Nat) (c : Bytes) (s : String),
    t.bytesAt i = .ok c → Utf8.decode c.toArray = .ok s → read i = .ok s

/-- The table's own reader is one. -/
theorem readBy_textAt (t : StringTable) : t.ReadBy t.textAt := by
  intro i c s hc hs
  unfold textAt
  rw [hc, ok_bind, hs]
  rfl

/-- Every reader of the table reads the strings that it shows. -/
theorem Shows.read_eq {t : StringTable} {texts : List String} {read : Nat → Except Fault String}
    (h : t.Shows texts) (hread : t.ReadBy read) {i : Nat} (hi : i < texts.length) :
    read i = t.textAt i := by
  obtain ⟨c, hc, hlist⟩ := h.bytesAt_eq i hi
  have hs := Utf8.decode_eq_ok_iff.mpr hlist.symm
  rw [hread i c _ hc hs, t.readBy_textAt i c _ hc hs]

/-- The string at `index`, read by `read`. -/
def getThrough (t : StringTable) (read : Nat → Except Fault String) (index : Nat) :
    Except Failure String := do
  Failure.ofError (checkArgument (decide (index < t.len)) "index" "index < self.len")
  Failure.ofFault (read index)

/-- All strings, read by `read`. -/
def stringsThrough (t : StringTable) (read : Nat → Except Fault String) :
    Except Fault (Cursor String) := do
  let texts ← (List.range t.len).mapM read
  return Cursor.ofArray texts.toArray

end StringTable

/-- The POS, their names read by `read`. -/
def PosIndex.entriesThrough (x : PosIndex) (read : Nat → Except Fault String) :
    Except Fault (List PosEntry) := do
  (← x.distinctIds).toList.mapM fun id => do
    return { name := ← read id.toNat, id }

namespace Engine

/-- The token that a record makes of a stem, its suffixes read by `read`. -/
def tokenThrough (read : Nat → Except Fault String) (key value : String) (posId : UInt16)
    (r : TokenRecord) : Except Fault Token := do
  let keySuffix ← read r.keySuffixIndex.toNat
  let valueSuffix ← read r.valueSuffixIndex.toNat
  return ⟨key ++ keySuffix, value ++ valueSuffix, posId, r.conjugationId⟩

/-- The tokens of a stem for the POS `posId`, their suffixes read by `read`. -/
def tokensThrough (e : Engine) (read : Nat → Except Fault String) (key value : String)
    (posId : UInt16) : Except Fault (List Token) := do
  (← e.posIndex.records posId).toList.mapM (tokenThrough read key value posId)

end Engine

/-! ## What it means to answer -/

/-- Every question about POS is answered. -/
structure PosIndex.Answers (x : PosIndex) : Prop where
  resolveId : ∀ name, ∃ answer, x.resolveId name = .ok answer
  recordRange : ∀ id, ∃ span, x.recordRange id = .ok span
  records : ∀ id, ∃ records, x.records id = .ok records
  distinctIds : ∃ ids, x.distinctIds = .ok ids

/-- Every query of a dictionary, of its table and of its array is answered. -/
structure Engine.Answers (e : Engine) : Prop where
  posList : ∃ names, Dictionary.posList e = .ok names
  posEntries : ∃ entries, e.posEntries = .ok entries
  posId : ∀ pos, ∃ answer, Dictionary.posId e pos = .ok answer
  isValidPos : ∀ pos, ∃ answer, Dictionary.isValidPos e pos = .ok answer
  getTokens : ∀ key value pos out, ∃ answer,
    (Dictionary.getTokens e key value pos out).outcome = .ok answer
  get : ∀ index fault, e.strings.get index ≠ .error (.fault fault)
  find : ∀ s, ∃ answer, e.strings.find s = .ok answer
  strings : ∃ texts, e.strings.strings = .ok texts
  record : ∀ i, ∃ answer, e.tokens.get? i = .ok answer
  posIndexAt : ∀ i, ∃ answer, e.tokens.posIndexAt? i = .ok answer
  equalRange : ∀ id, ∃ span, e.tokens.equalRange id = .ok span
  allRecords : ∃ records, e.tokens.records = .ok records
  index : e.posIndex.Answers

/-- Every query that reads strings gives the same answer when they are read by `read`. -/
structure Engine.AnswersThrough (e : Engine) (read : Nat → Except Fault String) : Prop where
  get : ∀ index, e.strings.getThrough read index = e.strings.get index
  strings : e.strings.stringsThrough read = e.strings.strings
  posEntries : e.posIndex.entriesThrough read = e.posEntries
  tokensOf : ∀ key value id, e.tokensThrough read key value id = e.tokensOf key value id

/-! ## Questions about POS -/

/-- The questions about POS are answered whatever the records are: they may be in any order and
refer to anything. -/
theorem StringTable.Shows.answers {t : StringTable} {texts : List String} (h : t.Shows texts)
    (tokens : TokenArray) : PosIndex.Answers ⟨t, tokens⟩ where
  recordRange id := by
    obtain ⟨span, hspan, -⟩ := tokens.exists_equalRange_within id
    exact ⟨span, hspan⟩
  records id := by
    obtain ⟨span, hspan, hle, hstop⟩ := tokens.exists_equalRange_within id
    unfold PosIndex.records PosIndex.recordRange
    rw [hspan, ok_bind, TokenArray.range_eq hle hstop]
    exact ⟨_, rfl⟩
  resolveId name := by
    unfold PosIndex.resolveId
    rw [h.find_eq, ok_bind]
    cases texts.idxOf? name with
    | none => exact ⟨_, rfl⟩
    | some index =>
      obtain ⟨span, hspan, -⟩ := tokens.exists_equalRange_within (UInt16.ofNat index)
      by_cases hfits : index < UInt16.size
      · simp only [hfits, PosIndex.recordRange, hspan, if_true, ok_bind]
        exact ⟨_, rfl⟩
      · simp only [hfits, if_false]
        exact ⟨_, rfl⟩
  distinctIds := ⟨_, PosIndex.distinctIds_eq _⟩

namespace Engine

variable {e : Engine} {texts : List String} {records : List TokenRecord}

/-! ## Queries of a dictionary -/

/-- An engine that shows strings and records answers every query. -/
theorem answers_of_shows (h : e.posIndex.Shows texts records) : e.Answers := by
  have hstrings : e.strings.Shows texts := h.strings
  have hindex : e.posIndex.Answers := hstrings.answers e.tokens
  exact {
    posList := ⟨_, posList_eq h⟩
    posEntries := ⟨_, h.entries_eq⟩
    posId := hindex.resolveId
    isValidPos := fun pos => by
      obtain ⟨answer, hanswer⟩ := hindex.resolveId pos
      exact ⟨_, isValidPos_eq hanswer⟩
    getTokens := fun key value pos out => ⟨_, outcome_getTokens h key value pos out⟩
    get := fun index fault => by
      rcases Nat.lt_or_ge index texts.length with hlt | hge
      · simp [hstrings.get_of_lt hlt]
      · simp [hstrings.get_of_ge hge]
    find := fun s => ⟨_, hstrings.find_eq s⟩
    strings := ⟨_, hstrings.strings_eq⟩
    record := fun i => ⟨_, TokenArray.get?_eq i⟩
    posIndexAt := fun i => ⟨_, TokenArray.posIndexAt?_eq i⟩
    equalRange := hindex.recordRange
    allRecords := ⟨_, TokenArray.records_eq⟩
    index := hindex }

/-- A dictionary reads strings only where its table holds texts. -/
theorem answersThrough_of_shows (h : e.posIndex.Shows texts records)
    {read : Nat → Except Fault String} (hread : e.strings.ReadBy read) :
    e.AnswersThrough read := by
  have hstrings : e.strings.Shows texts := h.strings
  have hsame : ∀ i < texts.length, read i = e.strings.textAt i := fun i hi =>
    hstrings.read_eq hread hi
  refine ⟨?_, ?_, ?_, ?_⟩
  · intro index
    unfold StringTable.getThrough StringTable.get checkArgument
    by_cases hlt : index < e.strings.len
    · rw [hsame index (hstrings.len_eq ▸ hlt)]
    · simp [hlt]
  · unfold StringTable.stringsThrough StringTable.strings
    rw [mapM_congr]
    intro i hi
    exact hsame i (hstrings.len_eq ▸ List.mem_range.mp hi)
  · show e.posIndex.entriesThrough read = e.posIndex.entriesThrough e.strings.textAt
    obtain ⟨ids, hids, hlist⟩ := h.exists_distinctIds
    unfold PosIndex.entriesThrough
    rw [hids, ok_bind, ok_bind, hlist]
    apply mapM_congr
    intro id hid
    obtain ⟨hlt, -⟩ := List.getElem?_eq_some_iff.mp (h.getElem?_of_mem_idsOf hid)
    rw [hsame _ hlt]
  · intro key value id
    show _ = e.tokensThrough e.strings.textAt key value id
    unfold tokensThrough
    rw [h.records_eq, ok_bind, ok_bind, Cursor.toList_ofArray]
    apply mapM_congr
    intro r hr
    obtain ⟨-, hvalue, hkey⟩ := h.refersBelow r (List.mem_filter.mp hr).1
    unfold tokenThrough
    rw [hsame _ hkey, hsame _ hvalue]

/-- **Accepted data is queried without fault.** Every query of an opened dictionary is answered,
and the answer does not depend on what is read where the table holds no text. The questions about
POS are answered for every accepted table and any array of records. -/
theorem queries_never_fault :
    (∀ tokenArray stringArray e, (ofBytes tokenArray stringArray).outcome = .ok e →
      e.Answers ∧ ∀ read, e.strings.ReadBy read → e.AnswersThrough read) ∧
    ∀ b t, StringTable.ofBytes b = .ok t → ∀ tokens, PosIndex.Answers ⟨t, tokens⟩ := by
  constructor
  · intro tokenArray stringArray e he
    obtain ⟨texts, records, hshows, -, -⟩ := exists_shows_of_ofBytes he
    exact ⟨answers_of_shows hshows, fun read hread => answersThrough_of_shows hshows hread⟩
  · intro b t ht tokens
    obtain ⟨texts, hshows, -⟩ := StringTable.exists_shows_of_ofBytes ht
    exact hshows.answers tokens

/-- Three forms that are not in the order of their POS and refer to strings beyond a table of
three. -/
def strayForms : Bytes :=
  .ofArray #[9, 0, 9, 0, 9, 0, 1, 0, 1, 0, 7, 0, 7, 0, 2, 0, 9, 0, 0, 0, 0, 0, 3, 0] 2

/-- An engine with two forms, and a record that refers to strings that are not there. -/
theorem queries_never_fault_twoForms :
    ((ofBytes twoForms threeStrings).outcome = .ok ⟨⟨threeStrings, 3⟩, ⟨twoForms⟩⟩ ∧
      Answers ⟨⟨threeStrings, 3⟩, ⟨twoForms⟩⟩ ∧
      AnswersThrough ⟨⟨threeStrings, 3⟩, ⟨twoForms⟩⟩ (StringTable.textAt ⟨threeStrings, 3⟩)) ∧
    StringTable.ofBytes threeStrings = .ok ⟨threeStrings, 3⟩ ∧
      PosIndex.Answers ⟨⟨threeStrings, 3⟩, ⟨strayForms⟩⟩ := by
  have opened : (ofBytes twoForms threeStrings).outcome =
      .ok ⟨⟨threeStrings, 3⟩, ⟨twoForms⟩⟩ := by rfl
  have table : StringTable.ofBytes threeStrings = .ok ⟨threeStrings, 3⟩ := by rfl
  obtain ⟨answers, through⟩ := queries_never_fault.1 _ _ _ opened
  exact ⟨⟨opened, answers, through _ (StringTable.readBy_textAt _)⟩, table,
    queries_never_fault.2 _ _ table _⟩

end Engine

end PosDictionary
