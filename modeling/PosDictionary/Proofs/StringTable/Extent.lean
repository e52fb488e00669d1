import PosDictionary.Proofs.Engine.StoredForms

/-!
# How far a string table reaches

A table is read at the places that its own numbers state, and nowhere else. Bytes behind it change
none of these numbers, so that they are ignored: `wellFormed_append_iff`. A table whose last string
ends where its data ends, as it does in what is written, reaches to the last byte. It cannot be cut
anywhere. The cut may leave no room for the number of strings, no room for the entries, or some
string without its end, and each is noticed by a check of its own: `cutViolation`.
-/

namespace PosDictionary

open Outcome

/-- What stands behind a number does not change it. -/
theorem LittleEndian.numberAt_append {width place : Nat} {data : List UInt8} (more : List UInt8)
    (inside : place + width ≤ data.length) :
    numberAt width (data ++ more) place = numberAt width data place := by
  rw [← Nat.zero_add place, ← numberAt_part (data ++ more) inside, List.drop_zero, List.take_left,
    Nat.zero_add]

namespace StringTable

namespace Layout

open LittleEndian

variable {data : List UInt8} (more : List UInt8)

/-! ## Bytes behind a table -/

/-- What follows does not change the count. -/
theorem count_append (fits : 4 ≤ data.length) : count (data ++ more) = count data :=
  numberAt_append more fits

/-- What follows does not change where the entries end. -/
theorem entriesEnd_append (fits : 4 ≤ data.length) :
    entriesEnd (data ++ more) = entriesEnd data := by
  rw [entriesEnd, entriesEnd, count_append more fits]

section entries

variable (fits : entriesEnd data ≤ data.length)

include fits

/-- Where the entries fit, the count does. -/
theorem count_fits_of_entriesEnd_le : 4 ≤ data.length :=
  Nat.le_trans (Nat.le_add_right 4 _) fits

variable {i : Nat} (hi : i < count data)

include hi

/-- What follows does not change an offset. -/
theorem offset_append : offset (data ++ more) i = offset data i := by
  apply numberAt_append
  rw [entriesEnd] at fits
  omega

/-- What follows does not change a size. -/
theorem size_append : size (data ++ more) i = size data i := by
  apply numberAt_append
  rw [entriesEnd] at fits
  omega

/-- What follows does not change where a string ends. -/
theorem stop_append : stop (data ++ more) i = stop data i := by
  rw [stop, stop, offset_append more fits hi, size_append more fits hi]

/-- Bytes behind the table are no part of a string in it. -/
theorem content_append (inside : stop data i ≤ data.length) :
    content (data ++ more) i = content data i := by
  unfold stop at inside
  unfold content
  rw [offset_append more fits hi, size_append more fits hi,
    List.drop_append_of_le_length (by omega), List.take_append_of_le_length]
  rw [List.length_drop]
  omega

/-- The rules for a string that lies in the table are kept with and without bytes behind it. -/
theorem holds_append_iff (inside : stop data i < data.length) {r : Rule} (hr : r ∈ entryRules i) :
    r.Holds (data ++ more) ↔ r.Holds data := by
  simp only [entryRules, List.mem_cons, List.not_mem_nil, or_false] at hr
  rcases hr with rfl | rfl | rfl | rfl
  · rw [Rule.Holds, Rule.Holds, offset_append more fits hi,
      entriesEnd_append more (count_fits_of_entriesEnd_le fits)]
  · rw [Rule.Holds, Rule.Holds, stop_append more fits hi, List.length_append]
    exact iff_of_true (Nat.lt_add_right _ inside) inside
  · rw [Rule.Holds, Rule.Holds, stop_append more fits hi, List.getElem?_append_left inside]
  · rw [Rule.Holds, Rule.Holds, content_append more fits hi (Nat.le_of_lt inside)]

end entries

variable {more}

/-- What follows does not change the strings, if these lie inside. -/
theorem contents_append (fits : entriesEnd data ≤ data.length)
    (inside : ∀ i < count data, stop data i < data.length) :
    contents (data ++ more) = contents data := by
  unfold contents
  rw [count_append more (count_fits_of_entriesEnd_le fits)]
  apply List.map_congr_left
  intro i hi
  have hi := List.mem_range.mp hi
  exact content_append more fits hi (Nat.le_of_lt (inside i hi))

/-- Data in which the strings end is a table exactly if it is one with any bytes behind it. -/
theorem wellFormed_append_iff (fits : entriesEnd data ≤ data.length)
    (inside : ∀ i < count data, stop data i < data.length) :
    WellFormed (data ++ more) ↔ WellFormed data := by
  have hcount := count_fits_of_entriesEnd_le fits
  have hrules : rules (data ++ more) = rules data := by
    rw [rules, rules, count_append more hcount]
  rw [wellFormed_iff, wellFormed_iff, hrules]
  refine forall₂_congr fun r hr => ?_
  rcases List.mem_append.mp hr with hr | hr
  · rcases List.mem_pair.mp hr with rfl | rfl
    · rw [Rule.Holds, Rule.Holds, List.length_append]
      exact iff_of_true (Nat.le_add_right_of_le hcount) hcount
    · rw [Rule.Holds, Rule.Holds, entriesEnd_append more hcount, List.length_append]
      exact iff_of_true (Nat.le_add_right_of_le fits) fits
  · rcases List.mem_append.mp hr with hr | hr
    · obtain ⟨i, hi, hr⟩ := List.mem_flatMap.mp hr
      have hi := List.mem_range.mp hi
      exact holds_append_iff more fits hi (inside i hi) hr
    · obtain ⟨i, hi, rfl⟩ := List.mem_map.mp hr
      have hi := List.mem_range.mp hi
      have hfirst : i < count data := by omega
      have hsecond : i + 1 < count data := by omega
      rw [Rule.Holds, Rule.Holds,
        content_append more fits hfirst (Nat.le_of_lt (inside i hfirst)),
        content_append more fits hsecond (Nat.le_of_lt (inside (i + 1) hsecond))]

end Layout

open Layout

/-! ## Cut tables -/

/-- The rule that is broken where a table of `count` strings is cut to its first `len` bytes. -/
def cutViolation (count len : Nat) : Violation :=
  if len < 4 then .noCount else if len < 4 + 8 * count then .entriesCut else .endOutside

section cut

variable {data more : List UInt8} (whole : WellFormed (data ++ more))

include whole

/-- The rules for a string are kept if the string ends before the cut. Otherwise its end is
missed. -/
theorem judge_entryRules_of_cut (fits : entriesEnd data ≤ data.length) {i : Nat}
    (hi : i < count data) :
    judge data (entryRules i) = if stop data i < data.length then .ok ()
      else .error (.error Violation.endOutside.toError) := by
  have hcount := count_fits_of_entriesEnd_le fits
  have hi' : i < count (data ++ more) := by rwa [count_append more hcount]
  split
  next inside =>
    apply Rules.judge_of_all
    intro r hr
    rw [← holds_append_iff more fits hi inside hr]
    apply wellFormed_iff.mp whole
    exact List.mem_append_right _ (List.mem_append_left _
      (List.mem_flatMap.mpr ⟨i, List.mem_range.mpr hi', hr⟩))
  next outside =>
    have hbehind : (Rule.behindEntries i).Holds data := by
      have hoffset := whole.entriesEnd_le_offset i hi'
      rwa [entriesEnd_append more hcount, offset_append more fits hi] at hoffset
    have hinside : ¬ (Rule.inside i).Holds data := outside
    unfold entryRules judge
    rw [Rules.judge_cons_of_holds hbehind, Rules.judge_cons_of_broken hinside]
    rfl

/-- Of a table that is cut in its strings, the entry of the first string that is cut is refused. -/
theorem judge_entries_of_cut (fits : entriesEnd data ≤ data.length) {i : Nat}
    (hi : i < count data) (hstop : data.length ≤ stop data i) :
    judge data ((List.range (count data)).flatMap entryRules) =
      .error (.error Violation.endOutside.toError) := by
  have hentry : ∀ j ∈ List.range (count data), judge data (entryRules j) = .ok () ∨
      judge data (entryRules j) = .error (.error Violation.endOutside.toError) := by
    intro j hj
    rw [judge_entryRules_of_cut whole fits (List.mem_range.mp hj)]
    split
    · exact .inl rfl
    · exact .inr rfl
  have hfails := judge_entryRules_of_cut whole fits hi
  rw [if_neg (Nat.not_lt.mpr hstop)] at hfails
  rw [judge, Rules.judge_flatMap]
  exact forM_eq_error_of_mem hentry (List.mem_range.mpr hi) hfails

/-- A table that is cut before the end of its entries or of a string is refused for the rule that
this breaks. -/
theorem judge_of_cut (short : data.length < entriesEnd (data ++ more) ∨
      ∃ i < count (data ++ more), data.length ≤ stop (data ++ more) i) :
    judge data (rules data) =
      .error (.error (cutViolation (count (data ++ more)) data.length).toError) := by
  unfold cutViolation rules judge
  rw [List.cons_append]
  split
  next hshort =>
    have hcount : ¬ Rule.countFits.Holds data := Nat.not_le.mpr hshort
    rw [Rules.judge_cons_of_broken hcount]
    rfl
  next hlong =>
    have hcount : Rule.countFits.Holds data := Nat.not_lt.mp hlong
    rw [Rules.judge_cons_of_holds hcount, List.cons_append, List.nil_append,
      count_append more hcount]
    split
    next hshort =>
      have hentries : ¬ Rule.entriesFit.Holds data := Nat.not_le.mpr hshort
      rw [Rules.judge_cons_of_broken hentries]
      rfl
    next hlong =>
      have fits : entriesEnd data ≤ data.length := Nat.not_lt.mp hlong
      have hentries : Rule.entriesFit.Holds data := fits
      rw [entriesEnd_append more hcount, count_append more hcount] at short
      obtain ⟨i, hi, hstop⟩ := short.resolve_left (Nat.not_lt.mpr fits)
      rw [stop_append more fits hi] at hstop
      have hrefused := judge_entries_of_cut whole fits hi hstop
      unfold judge at hrefused
      rw [Rules.judge_cons_of_holds hentries, Rules.judge_append, hrefused, error_bind]

end cut

/-- What is written reaches to its last byte: there its entries end, or its last string does. -/
theorem written_reaches {texts : List String} (fits : (written texts).length ≤ maxSize) {len : Nat}
    (cut : len < (written texts).length) : len < entriesEnd (written texts) ∨
      ∃ i < count (written texts), len ≤ stop (written texts) i := by
  rw [entriesEnd, count_written fits]
  rcases Nat.eq_zero_or_pos texts.length with hnone | hsome
  · left
    obtain rfl := List.length_eq_zero_iff.mp hnone
    exact cut
  · right
    have hlast : texts.length - 1 < texts.length := Nat.sub_one_lt_of_lt hsome
    refine ⟨_, hlast, ?_⟩
    have hrest := congrArg List.length (drop_written texts (texts.length - 1))
    rw [List.length_drop, List.drop_eq_getElem_cons hlast, Nat.sub_add_cancel hsome,
      List.drop_length, List.flatMap_cons, List.flatMap_nil, List.append_nil, Layout.terminated,
      List.length_append, Text.length_bytes, List.length_singleton] at hrest
    rw [stop, offset_written fits hlast, size_written fits hlast]
    omega

/-- **A cut table is refused, and bytes behind a table are ignored.** What is written for ascending
strings is refused as malformed if it is cut anywhere, for the count, the entries or the end of a
string that is missing; so is a dictionary with these strings. An accepted table may have any bytes
behind it: it is still accepted, and answers every question as before. -/
theorem cut_refused_and_rest_ignored :
    (∀ texts b cut, serialize texts = .ok b → cut.toList <+: b.toList → cut.len < b.len →
      ofBytes cut = .error (.error (cutViolation texts.length cut.len).toError) ∧
        (cutViolation texts.length cut.len).toError.isInvalidFormat ∧
        ∀ tokenArray, (Engine.ofBytes tokenArray cut).outcome =
          .error (.error (cutViolation texts.length cut.len).toError)) ∧
    ∀ b t longer, ofBytes b = .ok t → b.toList <+: longer.toList →
      ∃ u, ofBytes longer = .ok u ∧ u.AnswersAs t ∧
        ∃ cursor, t.strings = .ok cursor ∧ u.strings = .ok cursor := by
  constructor
  · intro texts b cut hb ⟨more, hmore⟩ hlen
    obtain ⟨ascending, fits, rfl⟩ := serialize_eq_ok_iff.mp hb
    have hdata : cut.toList ++ more = written texts := hmore.trans (Bytes.toList_ofArray _ _)
    have hlen : cut.toList.length < (written texts).length := by
      simpa only [← Bytes.length_toList, Bytes.toList_ofArray] using hlen
    have hjudge := judge_of_cut (hdata ▸ wellFormed_written fits ascending)
      (hdata ▸ written_reaches fits hlen)
    rw [hdata, count_written fits, Bytes.length_toList] at hjudge
    have hcut : ofBytes cut = .error (.error (cutViolation texts.length cut.len).toError) := by
      rw [ofBytes_eq_judge, hjudge, error_bind]
    exact ⟨hcut, Violation.isInvalidFormat_toError _, fun _ => Engine.outcome_ofBytes_of_error hcut⟩
  · intro b t longer ht ⟨more, hmore⟩
    obtain ⟨wf, -⟩ := ofBytes_eq_ok_iff.mp ht
    have hlonger : WellFormed longer.toList := by
      rwa [← hmore, wellFormed_append_iff wf.entries_fit wf.stop_lt]
    have hu := ofBytes_eq_ok_iff.mpr ⟨hlonger, rfl⟩
    obtain ⟨texts, hshows, htexts⟩ := exists_shows_of_ofBytes ht
    obtain ⟨shown, hshown, hcontents⟩ := exists_shows_of_ofBytes hu
    rw [← hmore, contents_append wf.entries_fit wf.stop_lt, ← htexts] at hcontents
    obtain rfl : shown = texts := (List.map_inj_right fun s u => Text.bytes_inj.mp).mp hcontents
    exact ⟨_, hu, hshows.answersAs hshown, _, hshows.strings_eq, hshown.strings_eq⟩

/-- The stored form of "" and "か", which is written. -/
def emptyAndKa : Bytes :=
  .ofArray #[2, 0, 0, 0, 20, 0, 0, 0, 0, 0, 0, 0, 21, 0, 0, 0, 3, 0, 0, 0, 0, 227, 129, 139, 0] 0

/-- The same without the zero byte behind the last string. -/
def unterminated : Bytes :=
  .ofArray #[2, 0, 0, 0, 20, 0, 0, 0, 0, 0, 0, 0, 21, 0, 0, 0, 3, 0, 0, 0, 0, 227, 129, 139] 0

/-- The same with more bytes behind it. -/
def followed : Bytes :=
  .ofArray #[2, 0, 0, 0, 20, 0, 0, 0, 0, 0, 0, 0, 21, 0, 0, 0, 3, 0, 0, 0, 0, 227, 129, 139, 0,
    255, 107] 0

/-- A table of two strings, without its last byte and with bytes behind it. -/
theorem cut_refused_and_rest_ignored_emptyAndKa :
    serialize ["", "か"] = .ok emptyAndKa ∧ unterminated.toList <+: emptyAndKa.toList ∧
      unterminated.len < emptyAndKa.len ∧
      ofBytes unterminated = .error (.error Violation.endOutside.toError) ∧
      ofBytes emptyAndKa = .ok ⟨emptyAndKa, 2⟩ ∧ emptyAndKa.toList <+: followed.toList ∧
      ∃ u, ofBytes followed = .ok u ∧ u.AnswersAs ⟨emptyAndKa, 2⟩ := by
  have hb : serialize ["", "か"] = .ok emptyAndKa := by rfl
  have ht : ofBytes emptyAndKa = .ok ⟨emptyAndKa, 2⟩ := by rfl
  have hcut : unterminated.toList <+: emptyAndKa.toList := by decide
  have hlen : unterminated.len < emptyAndKa.len := by decide
  have hfollowed : emptyAndKa.toList <+: followed.toList := by decide
  obtain ⟨refused, ignored⟩ := cut_refused_and_rest_ignored
  obtain ⟨u, hu, hanswers, -⟩ := ignored _ _ _ ht hfollowed
  exact ⟨hb, hcut, hlen, (refused _ _ _ hb hcut hlen).1, ht, hfollowed, u, hu, hanswers⟩

end StringTable

end PosDictionary
