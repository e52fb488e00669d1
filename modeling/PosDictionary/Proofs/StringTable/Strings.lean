import Mathlib.Data.Set.List
import PosDictionary.Proofs.Search
import PosDictionary.Proofs.StringTable.Acceptance

/-!
# The strings of a table

A table that is accepted shows a list of strings, `Shows`, and every question to the table is a
question to that list: the string at an index, the index of a string, all strings.

Two of these questions are asked in different ways, the one by reading an entry and the other by a
search. `Indexes` says that each inverts the other.
-/

namespace PosDictionary.StringTable

open Layout Outcome

/-- The table shows these strings, in this order. -/
structure Shows (t : StringTable) (texts : List String) : Prop where
  /-- It counts them. -/
  len_eq : t.len = texts.length
  /-- It has the bytes of each in its place. -/
  bytesAt_eq : ∀ (i : Nat) (h : i < texts.length),
    ∃ c, t.bytesAt i = .ok c ∧ c.toList = Text.bytes texts[i]
  /-- Each comes before those behind it. -/
  ascending : texts.Pairwise Text.Before

namespace Shows

variable {t : StringTable} {texts : List String}

/-- The strings of a table are different. -/
theorem nodup (h : t.Shows texts) : texts.Nodup := h.ascending.nodup

/-! ## Strings by index -/

/-- The key at an index is the bytes of the string there. -/
theorem keyAt_eq (h : t.Shows texts) {i : Nat} (hi : i < texts.length) :
    t.keyAt i = .ok (Text.bytes texts[i]) := by
  obtain ⟨c, hc, hlist⟩ := h.bytesAt_eq i hi
  unfold keyAt
  rw [hc, ok_bind, hlist]
  rfl

/-- The text at an index is the string there. -/
theorem textAt_eq (h : t.Shows texts) {i : Nat} (hi : i < texts.length) :
    t.textAt i = .ok texts[i] := by
  obtain ⟨c, hc, hlist⟩ := h.bytesAt_eq i hi
  unfold textAt
  rw [hc, ok_bind, Utf8.decode_eq_ok_iff.mpr hlist.symm]
  rfl

/-- The string at an index of the table is given. -/
theorem get_of_lt (h : t.Shows texts) {i : Nat} (hi : i < texts.length) :
    t.get i = .ok texts[i] := by
  unfold get checkArgument
  rw [if_pos (decide_eq_true (h.len_eq ▸ hi)), h.textAt_eq hi]
  rfl

/-- An index beyond the strings is refused as an argument. -/
theorem get_of_ge (h : t.Shows texts) {i : Nat} (hi : texts.length ≤ i) :
    t.get i = .error (.error (.invalidArgument "index" "index < self.len")) := by
  unfold get checkArgument
  rw [if_neg (by simpa [h.len_eq] using hi)]
  rfl

/-- Only the string at an index is given for it. -/
theorem get_eq_ok_iff (h : t.Shows texts) {i : Nat} {s : String} :
    t.get i = .ok s ↔ texts[i]? = some s := by
  by_cases hi : i < texts.length
  · simp [h.get_of_lt hi, List.getElem?_eq_getElem hi]
  · simp [h.get_of_ge (Nat.le_of_not_lt hi), List.getElem?_eq_none (Nat.le_of_not_lt hi)]

/-! ## The index of a string -/

/-- A string is found at its place among the strings. -/
theorem find_eq (h : t.Shows texts) (s : String) : t.find s = .ok (texts.idxOf? s) := by
  have hkeys : t.len = (texts.map Text.bytes).length := by simp [h.len_eq]
  unfold find
  rw [hkeys, Search.find_eq (Text.pairwise_map_bytes h.ascending), Text.idxOf?_map_bytes]
  · rfl
  · intro i hi
    rw [List.getElem_map]
    exact h.keyAt_eq (by simpa using hi)

/-- A string is at one index only. -/
theorem idxOf?_eq_some_iff (h : t.Shows texts) {s : String} {i : Nat} :
    texts.idxOf? s = some i ↔ texts[i]? = some s :=
  Text.idxOf?_eq_some_iff h.nodup

/-- A string stands at one place only. -/
theorem getElem?_inj (h : t.Shows texts) {s : String} {i j : Nat} (hi : texts[i]? = some s)
    (hj : texts[j]? = some s) : i = j :=
  Option.some_inj.mp ((h.idxOf?_eq_some_iff.mpr hi).symm.trans (h.idxOf?_eq_some_iff.mpr hj))

/-- Of two strings, the one at the smaller index comes first. -/
theorem before_of_lt (h : t.Shows texts) {s u : String} {i j : Nat} (hi : texts[i]? = some s)
    (hj : texts[j]? = some u) (hij : i < j) : Text.Before s u := by
  obtain ⟨hilt, rfl⟩ := List.getElem?_eq_some_iff.mp hi
  obtain ⟨hjlt, rfl⟩ := List.getElem?_eq_some_iff.mp hj
  exact List.pairwise_iff_getElem.mp h.ascending i j hilt hjlt hij

/-! ## All strings -/

/-- The strings of a table are given in their order. -/
theorem strings_eq (h : t.Shows texts) : t.strings = .ok (Cursor.ofArray texts.toArray) := by
  unfold strings
  rw [h.len_eq, mapM_range_eq_ok fun i hi => h.textAt_eq hi]
  rfl

end Shows

/-! ## Accepted tables -/

/-- There are as many strings as the table counts. -/
theorem length_eq_count {data : List UInt8} {texts : List String}
    (h : texts.map Text.bytes = contents data) : texts.length = count data := by
  simpa [contents] using congrArg List.length h

/-- The bytes of a string are the content of its entry. -/
theorem bytes_getElem {data : List UInt8} {texts : List String}
    (h : texts.map Text.bytes = contents data) {i : Nat} (hi : i < texts.length) :
    Text.bytes texts[i] = content data i := by
  have hcount : i < count data := length_eq_count h ▸ hi
  have := congrArg (·[i]?) h
  simpa [contents, hi, List.getElem?_range hcount] using this

/-- Data is accepted when it is well-formed. -/
theorem ofBytes_eq_ok_iff {b : Bytes} {t : StringTable} :
    ofBytes b = .ok t ↔ WellFormed b.toList ∧ t = ⟨b, count b.toList⟩ := by
  rw [wellFormed_iff, ofBytes_eq_judge, bind_eq_ok]
  constructor
  · rintro ⟨⟨⟩, hkept, ht⟩
    cases ht
    exact ⟨Rules.judge_eq_ok_iff.mp hkept, rfl⟩
  · rintro ⟨hkept, rfl⟩
    exact ⟨(), Rules.judge_of_all hkept, rfl⟩

/-- An accepted table shows the strings that its data holds. -/
theorem exists_shows_of_ofBytes {b : Bytes} {t : StringTable} (h : ofBytes b = .ok t) :
    ∃ texts, t.Shows texts ∧ texts.map Text.bytes = contents b.toList := by
  obtain ⟨wf, rfl⟩ := ofBytes_eq_ok_iff.mp h
  obtain ⟨texts, htexts⟩ : contents b.toList ∈ Set.range (List.map Text.bytes) := by
    rw [Set.range_list_map]
    intro c hc
    obtain ⟨i, hi, rfl⟩ := List.mem_map.mp hc
    exact wf.isText i (List.mem_range.mp hi)
  have hlen := length_eq_count htexts
  refine ⟨texts, ⟨hlen.symm, ?_, ?_⟩, htexts⟩
  · intro i hi
    have hi : i < count b.toList := hlen ▸ hi
    obtain ⟨c, hc, hlist⟩ := StringTable.bytesAt_eq (by simpa [entriesEnd] using wf.entries_fit) hi
      (by simpa using Nat.le_of_lt (wf.stop_lt i hi))
    exact ⟨c, hc, hlist.trans (bytes_getElem htexts _).symm⟩
  · have ascending : (texts.map Text.bytes).Pairwise (· < ·) := htexts ▸ wf.ascending
    exact (List.pairwise_map.mp ascending : texts.Pairwise fun s u => Text.bytes s < Text.bytes u)

/-- **A string table is read exactly from its stored form.** Data is accepted if and only if it is
well-formed. An accepted table has the strings that the data holds, and refuses every other index.
Data that is refused is reported for the first rule that it breaks, as malformed. -/
theorem ofBytes_accepts_exactly_stored_form (b : Bytes) :
    ((∃ t, ofBytes b = .ok t) ↔ WellFormed b.toList) ∧
    (∀ t, ofBytes b = .ok t →
      t.len = count b.toList ∧
      (∀ i < count b.toList, ∃ s, t.get i = .ok s ∧ Text.bytes s = content b.toList i) ∧
      ∀ i, count b.toList ≤ i →
        t.get i = .error (.error (.invalidArgument "index" "index < self.len"))) ∧
    (∀ f, ofBytes b = .error f →
      ∃ r, Rules.FirstBroken (Rule.Holds b.toList) (rules b.toList) r ∧
        f = .error (r.violation b.toList).toError ∧
        (r.violation b.toList).toError.isInvalidFormat) := by
  refine ⟨?_, ?_, ?_⟩
  · simp only [ofBytes_eq_ok_iff, exists_and_left, exists_eq, and_true]
  · intro t ht
    obtain ⟨texts, hshows, htexts⟩ := exists_shows_of_ofBytes ht
    have hlen := length_eq_count htexts
    refine ⟨hshows.len_eq.trans hlen, ?_, fun i hi => hshows.get_of_ge (hlen ▸ hi)⟩
    intro i hi
    have hi : i < texts.length := hlen ▸ hi
    exact ⟨texts[i], hshows.get_of_lt hi, bytes_getElem htexts hi⟩
  · intro f hf
    rw [ofBytes_eq_judge, bind_eq_error] at hf
    rcases hf with hf | ⟨_, -, hf⟩
    · obtain ⟨r, hr, rfl⟩ := Rules.judge_eq_error_iff.mp hf
      exact ⟨r, hr, rfl, Violation.isInvalidFormat_toError _⟩
    · cases hf

/-! ## Finding and reading -/

/-- The table finds every string at the index where it reads it, and at no other. -/
structure Indexes (t : StringTable) (data : List UInt8) : Prop where
  /-- A string is found at an index if it is read there. -/
  find_iff_get : ∀ s i, t.find s = .ok (some i) ↔ t.get i = .ok s
  /-- It is found where the data holds its bytes. -/
  find_iff_content : ∀ s i,
    t.find s = .ok (some i) ↔ i < count data ∧ content data i = Text.bytes s
  /-- A string is read at one index only. -/
  get_inj : ∀ s i j, t.get i = .ok s → t.get j = .ok s → i = j
  /-- What is read at an index is found there. -/
  find_of_lt : ∀ i < t.len, ∃ s, t.get i = .ok s ∧ t.find s = .ok (some i)
  /-- A string is not found if it is read at no index. -/
  find_eq_none_iff : ∀ s, t.find s = .ok none ↔ ∀ i < t.len, t.get i ≠ .ok s

variable {t : StringTable} {texts : List String} {s : String}

namespace Shows

/-- A string is found where it is given. -/
theorem find_iff_get (h : t.Shows texts) {i : Nat} :
    t.find s = .ok (some i) ↔ t.get i = .ok s := by
  rw [h.find_eq, Except.ok.injEq, h.idxOf?_eq_some_iff, h.get_eq_ok_iff]

/-- A string is found where its bytes are the content. -/
theorem find_iff_content (h : t.Shows texts) {data : List UInt8}
    (htexts : texts.map Text.bytes = contents data) {i : Nat} :
    t.find s = .ok (some i) ↔ i < count data ∧ content data i = Text.bytes s := by
  have hlen := length_eq_count htexts
  rw [h.find_iff_get, h.get_eq_ok_iff, List.getElem?_eq_some_iff]
  constructor
  · rintro ⟨hi, rfl⟩
    exact ⟨hlen ▸ hi, (bytes_getElem htexts hi).symm⟩
  · rintro ⟨hi, hcontent⟩
    have hi : i < texts.length := hlen ▸ hi
    exact ⟨hi, Text.bytes_inj.mp ((bytes_getElem htexts hi).trans hcontent)⟩

/-- A string is not found if it is given nowhere. -/
theorem find_eq_none_iff (h : t.Shows texts) :
    t.find s = .ok none ↔ ∀ i < t.len, t.get i ≠ .ok s := by
  rw [h.find_eq, Except.ok.injEq, List.idxOf?_eq_none_iff, List.mem_iff_getElem?]
  constructor
  · intro hnone i _ hi
    exact hnone ⟨i, h.get_eq_ok_iff.mp hi⟩
  · rintro hall ⟨i, hi⟩
    have hlt := (List.getElem?_eq_some_iff.mp hi).1
    exact hall i (h.len_eq ▸ hlt) (h.get_eq_ok_iff.mpr hi)

end Shows

/-- **Finding a string inverts reading it.** In an accepted table a string is found at an index if
and only if it is read there, which is where the data holds its bytes. So it is found at one index
at most, every string of the table is found, and no other is. -/
theorem indexes_of_ofBytes {b : Bytes} (h : ofBytes b = .ok t) : t.Indexes b.toList := by
  obtain ⟨texts, hshows, htexts⟩ := exists_shows_of_ofBytes h
  refine {
    find_iff_get := fun s i => hshows.find_iff_get
    find_iff_content := fun s i => hshows.find_iff_content htexts
    get_inj := ?_
    find_of_lt := ?_
    find_eq_none_iff := fun s => hshows.find_eq_none_iff }
  · intro s i j hi hj
    exact hshows.getElem?_inj (hshows.get_eq_ok_iff.mp hi) (hshows.get_eq_ok_iff.mp hj)
  · intro i hi
    have hget := hshows.get_of_lt (hshows.len_eq ▸ hi)
    exact ⟨_, hget, hshows.find_iff_get.mpr hget⟩

/-- The string table of "", "k", "k" with a zero byte behind it, and "か". The first three share
their bytes. -/
def nestedStrings : Bytes :=
  .ofArray #[4, 0, 0, 0, 39, 0, 0, 0, 0, 0, 0, 0, 37, 0, 0, 0, 1, 0, 0, 0, 37, 0, 0, 0, 2, 0, 0, 0,
    40, 0, 0, 0, 3, 0, 0, 0, 0, 107, 0, 0, 227, 129, 139, 0] 0

/-- The nested strings are accepted. -/
theorem ofBytes_nestedStrings : ofBytes nestedStrings = .ok ⟨nestedStrings, 4⟩ := by rfl

/-- Strings of which each is a part of the next. -/
theorem indexes_of_ofBytes_nestedStrings :
    ofBytes nestedStrings = .ok ⟨nestedStrings, 4⟩ ∧
      Indexes ⟨nestedStrings, 4⟩ nestedStrings.toList :=
  ⟨ofBytes_nestedStrings, indexes_of_ofBytes ofBytes_nestedStrings⟩

end PosDictionary.StringTable
