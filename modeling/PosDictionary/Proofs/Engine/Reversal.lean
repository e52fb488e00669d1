import PosDictionary.Proofs.Engine.Enumeration
import PosDictionary.Proofs.TokenArray.Reversal

/-!
# Opening reversed records

A dictionary whose token array is reversed has the same strings, and its records still refer to
them. It is therefore judged by the order of its records alone, `outcome_ofBytes_eq_verifySorted`.
It is opened if these are all of one POS, and then gives the tokens of every lookup in the opposite
order, `AnswersReversed`. If there are several POS, it is refused at the ordinal where the records
of the greatest POS index end: `reversed_records_open_iff_samePos`.
-/

namespace PosDictionary.Engine

open Outcome
open TokenArray (SamePos TopIds orderError)
open TokenArray.Layout (records)

variable {tokenArray stringArray : Bytes} {e m : Engine}

/-- Where the strings are accepted and the records refer to them, the order of the records decides
whether the data is opened. -/
theorem outcome_ofBytes_eq_verifySorted {t : StringTable}
    (hstrings : StringTable.ofBytes stringArray = .ok t) (whole : tokenArray.toList.length % 8 = 0)
    (refersBelow : ∀ r ∈ records tokenArray.toList, r.RefersBelow t.len) :
    (ofBytes tokenArray stringArray).outcome =
      (TokenArray.verifySorted ⟨tokenArray⟩ >>= fun _ => .ok ⟨t, ⟨tokenArray⟩⟩) := by
  have htokens : TokenArray.ofBytes tokenArray = .ok ⟨tokenArray⟩ :=
    TokenArray.ofBytes_eq_ok_iff.mpr ⟨by rwa [← Bytes.length_toList], rfl⟩
  have hindices : TokenArray.verifyStringIndices ⟨tokenArray⟩ t.len = .ok () :=
    TokenArray.verifyStringIndices_eq_ok_iff.mpr refersBelow
  rw [outcome_ofBytes, accept, hstrings, htokens]
  show (TokenArray.verifyStringIndices ⟨tokenArray⟩ t.len >>= _) = _
  rw [hindices]
  rfl

/-! ## Lookups -/

/-- `m` answers every lookup as `e` does, with the tokens in the opposite order. -/
def AnswersReversed (e m : Engine) : Prop :=
  ∀ key value pos, ∃ answer, ∃ found : List Token, ∀ out,
    (Dictionary.getTokens e key value pos out).outcome = .ok (answer, out ++ found) ∧
    (Dictionary.getTokens m key value pos out).outcome = .ok (answer, out ++ found.reverse)

/-- Reversed records give the tokens in reverse. -/
theorem tokensFrom_reverse (texts : List String) (stored : List TokenRecord)
    (key value pos : String) :
    tokensFrom texts stored.reverse key value pos =
      (tokensFrom texts stored key value pos).reverse := by
  rw [tokensFrom, tokensFrom, List.filter_reverse, List.map_reverse]

/-- Dictionaries with the same strings and opposite records answer in the opposite order. -/
theorem answersReversed_of_shows {texts : List String} {stored : List TokenRecord}
    (he : e.posIndex.Shows texts stored) (hm : m.posIndex.Shows texts stored.reverse) :
    e.AnswersReversed m := by
  intro key value pos
  refine ⟨_, _, fun out => ⟨outcome_getTokens he key value pos out, ?_⟩⟩
  rw [outcome_getTokens hm, tokensFrom_reverse]
  simp only [List.mem_reverse]

/-! ## Opening -/

section reversed

variable (h : (ofBytes tokenArray stringArray).outcome = .ok e) {reversed : Bytes}
variable (hdata : reversed.toList =
  (TokenRecord.encodeAll (records tokenArray.toList).reverse).toList)

include hdata

/-- Reversed blocks are the records in reverse. -/
theorem records_reversed : records reversed.toList = (records tokenArray.toList).reverse := by
  rw [hdata, TokenArray.records_encodeAll]

include h

/-- Reversed records are opened if they are all of one POS. -/
theorem exists_ofBytes_reversed_iff :
    (∃ m, (ofBytes reversed stringArray).outcome = .ok m) ↔
      SamePos (records tokenArray.toList) := by
  obtain ⟨hstrings, -, wf⟩ := outcome_ofBytes_eq_ok_iff.mp h
  rw [← TokenArray.wellFormed_reversed_iff wf, ← hdata]
  constructor
  · rintro ⟨m, hm⟩
    obtain ⟨hsame, -, hwf⟩ := outcome_ofBytes_eq_ok_iff.mp hm
    obtain hsame : m.strings = e.strings := Except.ok.inj (hsame.symm.trans hstrings)
    rwa [hsame] at hwf
  · intro hwf
    exact ⟨⟨e.strings, ⟨reversed⟩⟩, outcome_ofBytes_eq_ok_iff.mpr ⟨hstrings, rfl, hwf⟩⟩

/-- An engine over reversed records gives every answer in reverse. -/
theorem answersReversed_of_ofBytes (hm : (ofBytes reversed stringArray).outcome = .ok m) :
    e.AnswersReversed m := by
  obtain ⟨hstrings, -, -⟩ := outcome_ofBytes_eq_ok_iff.mp h
  obtain ⟨hsame, -, -⟩ := outcome_ofBytes_eq_ok_iff.mp hm
  have hsame : e.strings = m.strings := Except.ok.inj (hstrings.symm.trans hsame)
  obtain ⟨texts, hshows, -⟩ := StringTable.exists_shows_of_ofBytes hstrings
  have hmirror := shows_of_ofBytes hm (hsame ▸ hshows)
  rw [records_reversed hdata] at hmirror
  exact answersReversed_of_shows (shows_of_ofBytes h hshows) hmirror

/-- Reversed records of several POS are refused for their order, behind those of the greatest POS
index. -/
theorem ofBytes_reversed_of_several (several : ¬ SamePos (records tokenArray.toList)) :
    ∃ greatest next error, TopIds (records tokenArray.toList) greatest next ∧
      error = orderError ((records tokenArray.toList).countP (·.posIndex = greatest)) next
        greatest ∧
      error.isInvalidFormat ∧
      TokenArray.verifySorted ⟨reversed⟩ = .error (.error error) ∧
      (ofBytes reversed stringArray).outcome = .error (.error error) := by
  obtain ⟨hstrings, -, wf⟩ := outcome_ofBytes_eq_ok_iff.mp h
  have hrecords := records_reversed hdata
  obtain ⟨greatest, next, htop, hcheck⟩ := TokenArray.checkSorted_of_descending
    (List.pairwise_reverse.mpr wf.sorted) (mt TokenArray.samePos_reverse_iff.mp several)
  rw [TokenArray.topIds_reverse_iff] at htop
  rw [← hrecords] at hcheck
  have hsorted : TokenArray.verifySorted ⟨reversed⟩ = .error (.error _) :=
    (TokenArray.verifySorted_eq_checkSorted _).trans (congrArg Failure.ofError hcheck)
  rw [hrecords, List.countP_reverse] at hsorted
  refine ⟨greatest, next, _, htop, rfl, rfl, hsorted, ?_⟩
  -- All checks before that of the order are passed as they were before.
  rw [outcome_ofBytes_eq_verifySorted hstrings, hsorted, error_bind]
  · rw [hdata, TokenRecord.length_encodeAll, Nat.mul_mod_right]
  · rw [hrecords]
    exact fun r hr => wf.refersBelow r (List.mem_reverse.mp hr)

end reversed

/-- **Reversed records are refused for their order alone, and only if there are several POS.**
Reversing the records of a dictionary twice changes nothing. Once reversed, they make up a
dictionary with the same strings if and only if no two of them differ in their POS; this gives the
tokens of every lookup in the opposite order. Otherwise the order is found to be lost behind the
records of the greatest POS index, at the ordinal that is their number, where a record carries the
next smaller POS index. -/
theorem reversed_records_open_iff_samePos
    (h : (ofBytes tokenArray stringArray).outcome = .ok e) :
    ∃ data, Sample.reverseBlocks tokenArray.toArray TokenRecord.size = .ok data ∧
      Sample.reverseBlocks data TokenRecord.size = .ok tokenArray.toArray ∧
      ∀ reversed : Bytes, reversed.toArray = data →
        ((∃ m, (ofBytes reversed stringArray).outcome = .ok m) ↔
          SamePos (records tokenArray.toList)) ∧
        (∀ m, (ofBytes reversed stringArray).outcome = .ok m → e.AnswersReversed m) ∧
        (¬ SamePos (records tokenArray.toList) → ∃ greatest next error,
          TopIds (records tokenArray.toList) greatest next ∧
          error = orderError ((records tokenArray.toList).countP (·.posIndex = greatest)) next
            greatest ∧
          error.isInvalidFormat ∧
          TokenArray.verifySorted ⟨reversed⟩ = .error (.error error) ∧
          (ofBytes reversed stringArray).outcome = .error (.error error)) := by
  obtain ⟨-, -, wf⟩ := outcome_ofBytes_eq_ok_iff.mp h
  refine ⟨_, TokenArray.reverseBlocks_eq wf.whole, TokenArray.reverseBlocks_reversed wf.whole, ?_⟩
  intro reversed hreversed
  have hdata := congrArg Array.toList hreversed
  exact ⟨exists_ofBytes_reversed_iff h hdata, fun m => answersReversed_of_ofBytes h hdata,
    ofBytes_reversed_of_several h hdata⟩

/-- Of two dictionaries, the one whose forms are all of the POS "n" is opened with its records
reversed, and the one that has a form of "v" as well is refused. -/
theorem reversed_records_open_iff_samePos_twoForms :
    (ofBytes twoForms threeStrings).outcome = .ok ⟨⟨threeStrings, 3⟩, ⟨twoForms⟩⟩ ∧
    (∃ data m, Sample.reverseBlocks twoForms.toArray TokenRecord.size = .ok data ∧
      (ofBytes (.ofArray data 2) threeStrings).outcome = .ok m ∧
      AnswersReversed ⟨⟨threeStrings, 3⟩, ⟨twoForms⟩⟩ m) ∧
    (ofBytes threeForms threeStrings).outcome = .ok ⟨⟨threeStrings, 3⟩, ⟨threeForms⟩⟩ ∧
    ∃ data error, Sample.reverseBlocks threeForms.toArray TokenRecord.size = .ok data ∧
      error.isInvalidFormat ∧
      (ofBytes (.ofArray data 2) threeStrings).outcome = .error (.error error) := by
  have hview (data : Array UInt8) : (Bytes.ofArray data 2).toArray = data :=
    Array.toList_inj.mp (Bytes.toList_ofArray data 2)
  have opened : (ofBytes twoForms threeStrings).outcome =
      .ok ⟨⟨threeStrings, 3⟩, ⟨twoForms⟩⟩ := by rfl
  obtain ⟨data, hdata, -, htwo⟩ := reversed_records_open_iff_samePos opened
  obtain ⟨hopened, hanswers, -⟩ := htwo _ (hview data)
  obtain ⟨m, hm⟩ := hopened.mpr (by decide)
  obtain ⟨more, hmore, -, hthree⟩ :=
    reversed_records_open_iff_samePos outcome_ofBytes_threeForms
  obtain ⟨-, -, hrefused⟩ := hthree _ (hview more)
  obtain ⟨_, _, error, -, -, hformat, -, herror⟩ := hrefused (by decide)
  exact ⟨opened, ⟨data, m, hdata, hm, hanswers m hm⟩, outcome_ofBytes_threeForms, more, error,
    hmore, hformat, herror⟩

end PosDictionary.Engine
