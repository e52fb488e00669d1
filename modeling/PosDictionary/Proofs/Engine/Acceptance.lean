import PosDictionary.Engine
import PosDictionary.Proofs.StringTable.Strings
import PosDictionary.Proofs.TokenArray.Acceptance

/-!
# Which data is a dictionary

`Engine.ofBytes` accepts two pieces of data exactly when the one is a string table and the other a
token array for it. The rules of both pieces make up one list: those of the string table come
first, then those of the token array for its size, its string indices and its order. A refusal
reports the first broken rule of this list.
-/

namespace PosDictionary.Engine

open Outcome

/-! ## Rules -/

/-- A condition on the data of a dictionary. -/
inductive Rule where
  /-- A condition on the string table. -/
  | strings (r : StringTable.Layout.Rule)
  /-- A condition on the token array for that table. -/
  | records (r : TokenArray.Layout.Rule)

section rules

variable (tokenArray stringArray : List UInt8)

/-- The data keeps a rule. -/
def Rule.Holds : Rule → Prop
  | .strings r => r.Holds stringArray
  | .records r => r.Holds (StringTable.Layout.count stringArray) tokenArray

instance : DecidablePred (Rule.Holds tokenArray stringArray)
  | .strings r => inferInstanceAs (Decidable (r.Holds stringArray))
  | .records r =>
    inferInstanceAs (Decidable (r.Holds (StringTable.Layout.count stringArray) tokenArray))

/-- How data is reported that breaks a rule. -/
def Rule.error : Rule → Error
  | .strings r => (r.violation stringArray).toError
  | .records r => r.error (StringTable.Layout.count stringArray) tokenArray

/-- A broken rule is always reported as malformed data. -/
theorem Rule.isInvalidFormat_error (r : Rule) :
    (r.error tokenArray stringArray).isInvalidFormat := by
  cases r with
  | strings r => exact Violation.isInvalidFormat_toError _
  | records r => exact r.isInvalidFormat_error _ _

/-- The rules of a dictionary in the order in which they are judged. -/
def rules : List Rule :=
  (StringTable.Layout.rules stringArray).map .strings ++
    (TokenArray.Layout.rules tokenArray).map .records

end rules

/-! ## Accepting data -/

variable {tokenArray stringArray : Bytes}

/-- Judging the data of a dictionary by its rules. -/
abbrev judge (tokenArray stringArray : List UInt8) : Except Failure Unit :=
  Rules.judge (Rule.Holds tokenArray stringArray) (Rule.error tokenArray stringArray)
    (rules tokenArray stringArray)

/-- The string table is judged first, and the token array for its strings. -/
theorem accept_eq (tokenArray stringArray : Bytes) :
    accept tokenArray stringArray = (StringTable.ofBytes stringArray >>= fun t =>
      TokenArray.judge t.len tokenArray.toList (TokenArray.Layout.rules tokenArray.toList) >>=
        fun _ => .ok ⟨t, ⟨tokenArray⟩⟩) := by
  rw [accept]
  apply bind_congr_of_ok
  intro t _
  rw [TokenArray.checks_eq_judge]
  rfl

/-- Data is accepted by judging it by its rules. -/
theorem accept_eq_judge (tokenArray stringArray : Bytes) :
    accept tokenArray stringArray = (judge tokenArray.toList stringArray.toList >>= fun _ =>
      .ok ⟨⟨stringArray, StringTable.Layout.count stringArray.toList⟩, ⟨tokenArray⟩⟩) := by
  rw [accept_eq, StringTable.ofBytes_eq_judge, judge, rules, Rules.judge_append, Rules.judge_map,
    Rules.judge_map, bind_assoc, bind_assoc]
  rfl

/-- Counting the POS of accepted data never fails, so that data is opened when it is accepted. -/
theorem outcome_ofBytes (tokenArray stringArray : Bytes) :
    (ofBytes tokenArray stringArray).outcome = accept tokenArray stringArray := by
  simp only [ofBytes, outcome_bind, outcome_ofExcept, outcome_emit, outcome_pure, ok_bind]
  conv => rhs; rw [← bind_pure (accept tokenArray stringArray)]
  apply bind_congr_of_ok
  intro e _
  unfold PosIndex.distinctIds
  rw [TokenArray.records_eq]
  rfl

/-- Strings that are refused are refused with any token array. -/
theorem outcome_ofBytes_of_error {f : Failure} (h : StringTable.ofBytes stringArray = .error f) :
    (ofBytes tokenArray stringArray).outcome = .error f := by
  rw [outcome_ofBytes, accept_eq, h, error_bind]

/-- Data is opened as the dictionary of its two pieces. -/
theorem outcome_ofBytes_eq_ok_iff {e : Engine} :
    (ofBytes tokenArray stringArray).outcome = .ok e ↔
      StringTable.ofBytes stringArray = .ok e.strings ∧ e.tokens = ⟨tokenArray⟩ ∧
        TokenArray.Layout.WellFormed e.strings.len tokenArray.toList := by
  rw [outcome_ofBytes, accept_eq, bind_eq_ok, TokenArray.Layout.wellFormed_iff]
  constructor
  · rintro ⟨t, ht, hrecords⟩
    obtain ⟨_, hkept, he⟩ := bind_eq_ok.mp hrecords
    cases he
    exact ⟨ht, rfl, Rules.judge_eq_ok_iff.mp hkept⟩
  · rintro ⟨ht, htokens, hkept⟩
    refine ⟨e.strings, ht, ?_⟩
    unfold TokenArray.judge
    rw [Rules.judge_of_all hkept, ok_bind, ← htokens]

/-- **Data is a dictionary exactly when its two pieces fit together.** It is opened if and only if
the one piece is accepted as a string table and the other is a token array for the strings of that
table. If the strings are refused, so is the dictionary, for the same reason. In any case a refusal
reports the first broken rule, as malformed data. -/
theorem ofBytes_accepts_exactly_fitting_pieces (tokenArray stringArray : Bytes) :
    ((∃ e, (ofBytes tokenArray stringArray).outcome = .ok e) ↔
      ∃ t, StringTable.ofBytes stringArray = .ok t ∧
        TokenArray.Layout.WellFormed t.len tokenArray.toList) ∧
    (∀ f, StringTable.ofBytes stringArray = .error f →
      (ofBytes tokenArray stringArray).outcome = .error f) ∧
    ∀ f, (ofBytes tokenArray stringArray).outcome = .error f →
      ∃ r, Rules.FirstBroken (Rule.Holds tokenArray.toList stringArray.toList)
          (rules tokenArray.toList stringArray.toList) r ∧
        f = .error (r.error tokenArray.toList stringArray.toList) ∧
        (r.error tokenArray.toList stringArray.toList).isInvalidFormat := by
  refine ⟨⟨?_, ?_⟩, ?_, ?_⟩
  · rintro ⟨e, he⟩
    obtain ⟨hstrings, -, hrecords⟩ := outcome_ofBytes_eq_ok_iff.mp he
    exact ⟨e.strings, hstrings, hrecords⟩
  · rintro ⟨t, hstrings, hrecords⟩
    exact ⟨⟨t, ⟨tokenArray⟩⟩, outcome_ofBytes_eq_ok_iff.mpr ⟨hstrings, rfl, hrecords⟩⟩
  · intro f hf
    rw [outcome_ofBytes, accept_eq, hf, error_bind]
  · intro f hf
    rw [outcome_ofBytes, accept_eq_judge, bind_eq_error] at hf
    rcases hf with hf | ⟨_, -, hf⟩
    · obtain ⟨r, hr, rfl⟩ := Rules.judge_eq_error_iff.mp hf
      exact ⟨r, hr, rfl, r.isInvalidFormat_error _ _⟩
    · cases hf

end PosDictionary.Engine
