import PosDictionary.Proofs.Engine.Lookup
import PosDictionary.Proofs.StringTable.RoundTrip

/-!
# The stored form of the strings is immaterial

The strings of a table may lie in its data in any order, share bytes, and leave gaps. Here a table
and a dictionary are compared with those that have the same strings in the one stored form in which
strings are written. What they answer depends on the strings and on the records alone, so both
answer alike: `StringTable.AnswersAs` for tables, `Engine.AnswersAs` for dictionaries. They accept
the same token arrays as well, since this depends on the number of strings alone.
-/

namespace PosDictionary

open Outcome

/-! ## Tables -/

/-- The table `u` answers every question as `t` does. -/
structure StringTable.AnswersAs (u t : StringTable) : Prop where
  /-- They have as many strings. -/
  len_eq : u.len = t.len
  /-- They have the same string at an index, or both refuse the index. -/
  get_eq : ∀ index, u.get index = t.get index
  /-- They find a string at the same place. -/
  find_eq : ∀ s, ∃ place, t.find s = .ok place ∧ u.find s = .ok place

/-- Tables that show the same strings answer alike. -/
theorem StringTable.Shows.answersAs {t u : StringTable} {texts : List String}
    (h : t.Shows texts) (hu : u.Shows texts) : u.AnswersAs t where
  len_eq := hu.len_eq.trans h.len_eq.symm
  get_eq index := by
    by_cases hindex : index < texts.length
    · rw [h.get_of_lt hindex, hu.get_of_lt hindex]
    · rw [h.get_of_ge (Nat.le_of_not_lt hindex), hu.get_of_ge (Nat.le_of_not_lt hindex)]
  find_eq s := ⟨_, h.find_eq s, hu.find_eq s⟩

namespace Engine

/-! ## Dictionaries -/

/-- Both dictionaries answer every query, and `f` answers as `e` does. -/
structure AnswersAs (f e : Engine) : Prop where
  posList : ∃ names, Dictionary.posList e = .ok names ∧ Dictionary.posList f = .ok names
  posEntries : ∃ entries, e.posEntries = .ok entries ∧ f.posEntries = .ok entries
  posId : ∀ pos, ∃ id, Dictionary.posId e pos = .ok id ∧ Dictionary.posId f pos = .ok id
  isValidPos : ∀ pos, ∃ known,
    Dictionary.isValidPos e pos = .ok known ∧ Dictionary.isValidPos f pos = .ok known
  recordRange : ∀ id, ∃ span,
    e.posIndex.recordRange id = .ok span ∧ f.posIndex.recordRange id = .ok span
  /-- This includes what is reported on the way. -/
  getTokens : ∀ key value pos out, ∃ answer,
    (Dictionary.getTokens e key value pos out).outcome = .ok answer ∧
      Dictionary.getTokens f key value pos out = Dictionary.getTokens e key value pos out

variable {e f : Engine} {texts : List String} {records : List TokenRecord}

/-- A lookup makes its tokens of the strings and the records alone. -/
theorem getTokens_eq_of_shows (h : e.posIndex.Shows texts records)
    (hf : f.posIndex.Shows texts records) (key value pos : String) (out : Array Token) :
    Dictionary.getTokens f key value pos out = Dictionary.getTokens e key value pos out := by
  have hid : f.posIndex.resolveId pos = e.posIndex.resolveId pos := by
    rw [h.resolveId_eq, hf.resolveId_eq]
  have htokens : f.tokensOf key value = e.tokensOf key value := by
    funext id
    rw [tokensOf_eq h, tokensOf_eq hf]
  simp only [Dictionary.getTokens, hid, htokens]

/-- Dictionaries with the same strings and the same records answer alike. -/
theorem answersAs_of_shows (h : e.posIndex.Shows texts records)
    (hf : f.posIndex.Shows texts records) : f.AnswersAs e where
  posList := ⟨_, posList_eq h, posList_eq hf⟩
  posEntries := ⟨_, h.entries_eq, hf.entries_eq⟩
  posId pos := ⟨_, h.resolveId_eq pos, hf.resolveId_eq pos⟩
  isValidPos pos := ⟨_, isValidPos_eq (h.resolveId_eq pos), isValidPos_eq (hf.resolveId_eq pos)⟩
  recordRange id := ⟨_, h.recordRange_eq id, hf.recordRange_eq id⟩
  getTokens key value pos out :=
    ⟨_, outcome_getTokens h key value pos out, getTokens_eq_of_shows h hf key value pos out⟩

/-! ## Opening -/

/-- Two string tables are opened alike with a token array: both are refused for the same reason, or
both dictionaries answer alike. -/
def OpenedAlike (tokenArray strings others : Bytes) : Prop :=
  (∃ failure, (ofBytes tokenArray strings).outcome = .error failure ∧
    (ofBytes tokenArray others).outcome = .error failure) ∨
  ∃ e f, (ofBytes tokenArray strings).outcome = .ok e ∧
    (ofBytes tokenArray others).outcome = .ok f ∧ f.AnswersAs e

/-- Tables with the same strings are opened alike. -/
theorem openedAlike_of_shows {strings others : Bytes} {t u : StringTable}
    (ht : StringTable.ofBytes strings = .ok t) (hu : StringTable.ofBytes others = .ok u)
    (hshows : t.Shows texts) (hothers : u.Shows texts) (tokenArray : Bytes) :
    OpenedAlike tokenArray strings others := by
  have hlen : u.len = t.len := hothers.len_eq.trans hshows.len_eq.symm
  have hopened : ∀ (b : Bytes) (s : StringTable), StringTable.ofBytes b = .ok s → s.len = t.len →
      (ofBytes tokenArray b).outcome =
        (TokenArray.judge t.len tokenArray.toList (TokenArray.Layout.rules tokenArray.toList) >>=
          fun _ => .ok ⟨s, ⟨tokenArray⟩⟩) := by
    intro b s hs hcount
    rw [outcome_ofBytes, accept_eq, hs, ok_bind, hcount]
  have hfirst := hopened strings t ht rfl
  have hsecond := hopened others u hu hlen
  cases hjudge : TokenArray.judge t.len tokenArray.toList
      (TokenArray.Layout.rules tokenArray.toList) with
  | error failure =>
    rw [hjudge] at hfirst hsecond
    exact .inl ⟨failure, hfirst, hsecond⟩
  | ok _ =>
    rw [hjudge] at hfirst hsecond
    refine .inr ⟨_, _, hfirst, hsecond, ?_⟩
    exact answersAs_of_shows (shows_of_ofBytes hfirst hshows) (shows_of_ofBytes hsecond hothers)

/-- **The stored form of the strings is immaterial.** The strings of an accepted table ascend, so
that they are never refused as strings to be written. Unless they are too long, they are written,
and what is written is accepted as a table that answers every question as the first does, and is
written as the same bytes again. With any token array, both tables are refused for the same reason
or make dictionaries that answer every query alike. -/
theorem written_strings_answer_alike {strings : Bytes} {t : StringTable}
    (h : StringTable.ofBytes strings = .ok t) :
    ∃ texts : List String, t.strings = .ok (Cursor.ofArray texts.toArray) ∧
      (∀ failure, StringTable.serialize texts = .error failure → ¬ failure.isInvalidArgument) ∧
      (StringTable.Layout.storedSize texts ≤ StringTable.maxSize →
        ∃ written u, StringTable.serialize texts = .ok written ∧
          StringTable.ofBytes written = .ok u ∧ u.AnswersAs t ∧
          (∃ again, u.strings = .ok again ∧
            StringTable.serialize again.toList = .ok written) ∧
          ∀ tokenArray, OpenedAlike tokenArray strings written) := by
  obtain ⟨texts, hshows, -⟩ := StringTable.exists_shows_of_ofBytes h
  refine ⟨texts, hshows.strings_eq, ?_, ?_⟩
  · intro failure hfailure
    rw [StringTable.serialize_eq_error_iff, if_pos hshows.ascending] at hfailure
    simp [hfailure.2, Error.isInvalidArgument]
  · intro fits
    rw [← StringTable.Layout.length_written_eq_storedSize] at fits
    have hwritten := StringTable.serialize_eq_ok_iff.mpr ⟨hshows.ascending, fits, rfl⟩
    obtain ⟨u, hu, hagain⟩ := StringTable.exists_shows_of_serialize hwritten
    refine ⟨_, u, hwritten, hu, hshows.answersAs hagain, ⟨_, hagain.strings_eq, ?_⟩,
      openedAlike_of_shows h hu hshows hagain⟩
    rw [Cursor.toList_ofArray]
    exact hwritten

/-- The string table of the empty string, "ab" and "b", which share their terminator: the second
ends in the third, and the first lies behind it. There is a byte before and a byte behind them. -/
def sharedStrings : Bytes :=
  .ofArray #[3, 0, 0, 0, 31, 0, 0, 0, 0, 0, 0, 0, 29, 0, 0, 0, 2, 0, 0, 0, 30, 0, 0, 0, 1, 0, 0, 0,
    255, 97, 98, 0, 7] 0

/-- Three strings that share their bytes, written without sharing. -/
theorem written_strings_answer_alike_sharedStrings :
    StringTable.ofBytes sharedStrings = .ok ⟨sharedStrings, 3⟩ ∧
      ∃ written u, StringTable.serialize ["", "ab", "b"] = .ok written ∧
        StringTable.ofBytes written = .ok u ∧ u.AnswersAs ⟨sharedStrings, 3⟩ ∧
        (∃ again, u.strings = .ok again ∧ StringTable.serialize again.toList = .ok written) ∧
        ∀ tokenArray, OpenedAlike tokenArray sharedStrings written := by
  have accepted : StringTable.ofBytes sharedStrings = .ok ⟨sharedStrings, 3⟩ := by rfl
  have listed : StringTable.strings ⟨sharedStrings, 3⟩ =
      .ok (Cursor.ofArray #["", "ab", "b"]) := by rfl
  obtain ⟨texts, hstrings, -, hwritten⟩ := written_strings_answer_alike accepted
  obtain rfl : texts = ["", "ab", "b"] := by
    have hcursor := Except.ok.inj (hstrings.symm.trans listed)
    simpa using congrArg Cursor.toList hcursor
  exact ⟨accepted, hwritten (by decide)⟩

end Engine

end PosDictionary
