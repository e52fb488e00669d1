import PosDictionary.Proofs.Cursors
import PosDictionary.Proofs.TokenArray.Records

/-!
# Which bytes are token arrays

The three checks of a token array, for its size, for the strings that its records refer to and for
the order of its records, are the judgement of its rules: `accept_eq_judge`. The loops over the
records are compared with the rules record by record, from any ordinal on.
-/

namespace PosDictionary.TokenArray

open Layout Outcome

variable {count : Nat} {data : List UInt8}

/-- Judging by rules of an array. -/
abbrev judge (count : Nat) (data : List UInt8) (rules : List Rule) : Except Failure Unit :=
  Rules.judge (Rule.Holds count data) (Rule.error count data) rules

/-! ## Checks and rules -/

/-- The greater of two indices is in range if both are. -/
theorem max_lt_iff (a b : UInt16) :
    (max a b).toNat < count ↔ a.toNat < count ∧ b.toNat < count := by
  show (if a ≤ b then b else a).toNat < count ↔ _
  split
  next h => have := UInt16.le_iff_toNat_le.mp h; omega
  next h => have := mt UInt16.le_iff_toNat_le.mpr h; omega

/-- The greatest index of a record is in range if all of them are. -/
theorem maxStringIndex_lt_iff (r : TokenRecord) :
    r.maxStringIndex.toNat < count ↔ r.RefersBelow count := by
  unfold TokenRecord.maxStringIndex TokenRecord.RefersBelow
  rw [max_lt_iff, max_lt_iff, and_assoc]

/-- The check of string indices asks the rule for each record. -/
theorem checkStringIndices_eq (ordinal n : Nat) :
    Failure.ofError (checkStringIndices count ordinal
        ((List.range' ordinal n).map (Layout.record data))) =
      judge count data ((List.range' ordinal n).map .refersBelow) := by
  induction n generalizing ordinal with
  | zero => rfl
  | succ n ih =>
    rw [List.range'_succ, List.map_cons, List.map_cons, checkStringIndices]
    by_cases h : (Rule.refersBelow ordinal).Holds count data
    · rw [if_pos ((maxStringIndex_lt_iff _).mpr h), ih]
      exact Eq.symm (Rules.judge_cons_of_holds h _)
    · rw [if_neg (mt (maxStringIndex_lt_iff _).mp h)]
      exact Eq.symm (Rules.judge_cons_of_broken h _)

/-- The check of order asks the rule for each record and the one before it. -/
theorem checkSorted_eq (ordinal n : Nat) :
    Failure.ofError (checkSorted (ordinal + 1) (Layout.record data ordinal).posIndex
        ((List.range' (ordinal + 1) n).map (Layout.record data))) =
      judge count data ((List.range' ordinal n).map .ordered) := by
  induction n generalizing ordinal with
  | zero => rfl
  | succ n ih =>
    rw [List.range'_succ, List.range'_succ, List.map_cons, List.map_cons, checkSorted]
    by_cases h : (Rule.ordered ordinal).Holds count data
    · rw [if_neg (Std.not_lt.mpr h), ih]
      exact Eq.symm (Rules.judge_cons_of_holds h _)
    · rw [if_pos (Std.not_le.mp h)]
      exact Eq.symm (Rules.judge_cons_of_broken h _)

/-! ## Accepting data -/

/-- The check of the indices is a rule for each record. -/
theorem verifyStringIndices_eq (t : TokenArray) :
    t.verifyStringIndices count =
      judge count t.data.toList ((List.range (t.data.toList.length / 8)).map .refersBelow) := by
  unfold verifyStringIndices
  rw [records_eq]
  simp only [Failure.ofFault_ok, ok_bind, Cursor.toList_ofArray]
  unfold stored Layout.records
  rw [List.range_eq_range', checkStringIndices_eq]

/-- The check of string indices asks for those of all records. -/
theorem verifyStringIndices_eq_ok_iff {t : TokenArray} :
    t.verifyStringIndices count = .ok () ↔ ∀ r ∈ t.stored, r.RefersBelow count := by
  rw [verifyStringIndices_eq, judge, Rules.judge_eq_ok_iff]
  unfold stored Layout.records
  rw [List.forall_mem_map, List.forall_mem_map]
  rfl

/-- The check of order goes through the records from the first on. -/
theorem verifySorted_eq_checkSorted (t : TokenArray) :
    t.verifySorted = Failure.ofError (checkSorted 0 0 t.stored) := by
  unfold verifySorted
  rw [records_eq]
  simp only [Failure.ofFault_ok, ok_bind, Cursor.toList_ofArray]

/-- The check of the order is a rule for each record but the last. -/
theorem verifySorted_eq (count : Nat) (t : TokenArray) :
    t.verifySorted =
      judge count t.data.toList ((List.range (t.data.toList.length / 8 - 1)).map .ordered) := by
  rw [verifySorted_eq_checkSorted]
  unfold stored Layout.records
  rw [List.range_eq_range', List.range_eq_range']
  cases t.data.toList.length / 8 with
  | zero => rfl
  | succ n =>
    rw [List.range'_succ, List.map_cons, checkSorted, if_neg UInt16.not_lt_zero, checkSorted_eq,
      Nat.add_sub_cancel]

/-- Taking bytes as a token array and checking it is judging the bytes by their rules. -/
theorem checks_eq_judge {α : Type} (b : Bytes) (next : TokenArray → Except Failure α) :
    (do
      let t ← Failure.ofError (ofBytes b)
      t.verifyStringIndices count
      t.verifySorted
      next t) = (judge count b.toList (rules b.toList) >>= fun _ => next ⟨b⟩) := by
  unfold ofBytes
  rw [checkFormat]
  by_cases h : Rule.whole.Holds count b.toList
  · rw [if_pos (by simpa [Rule.Holds, TokenRecord.size] using h)]
    show (do verifyStringIndices ⟨b⟩ count; verifySorted ⟨b⟩; next ⟨b⟩) = _
    rw [verifyStringIndices_eq, verifySorted_eq count, rules, judge, judge, judge,
      Rules.judge_cons_of_holds h, Rules.judge_append, bind_assoc]
  · rw [if_neg (by simpa [Rule.Holds, TokenRecord.size] using h), rules, judge,
      Rules.judge_cons_of_broken h]
    rfl

end PosDictionary.TokenArray
