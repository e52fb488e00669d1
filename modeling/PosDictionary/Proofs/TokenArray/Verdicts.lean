import Mathlib.Data.Set.Insert
import Mathlib.Order.Bounds.Defs
import PosDictionary.Proofs.TokenArray.Reversal

/-!
# What the checks of records report

Records are checked from the first to the last, once for the strings that they refer to and once for
their order. Each check passes exactly the arrays whose records all keep its rule. Any other array
is refused for the least ordinal at which the rule is broken, however far behind it stands:
`checks_report_least_ordinal`.
-/

namespace PosDictionary.TokenArray

open Layout

variable {count : Nat} {t : TokenArray}

/-- How the record at `ordinal` is reported that refers to string `index`, of no more than
`count`. -/
def indexError (ordinal : Nat) (index : UInt16) (count : Nat) : Error :=
  .invalidFormat "token_array"
    s!"record {ordinal} refers to string {index}, table has {count} entries"

/-- A judgement by rules for the first `n` numbers is decided by the least number that breaks its
rule. -/
theorem judge_range_eq_error_iff {data : List UInt8} {rule : Nat → Rule} {n : Nat} {f : Failure} :
    judge count data ((List.range n).map rule) = .error f ↔
      ∃ i < n, (∀ j < i, (rule j).Holds count data) ∧ ¬ (rule i).Holds count data ∧
        f = .error ((rule i).error count data) := by
  rw [judge, Rules.judge_eq_error_iff]
  simp only [Rules.firstBroken_iff_getElem, List.length_map, List.length_range, List.getElem_map,
    List.getElem_range]
  constructor
  · rintro ⟨_, ⟨i, hi, hbefore, hbroken, rfl⟩, rfl⟩
    exact ⟨i, hi, hbefore, hbroken, rfl⟩
  · rintro ⟨i, hi, hbefore, hbroken, rfl⟩
    exact ⟨_, ⟨i, hi, hbefore, hbroken, rfl⟩, rfl⟩

/-- The number of records follows from that of the bytes. -/
theorem length_div_eq (t : TokenArray) : t.data.toList.length / 8 = t.len := by
  rw [Bytes.length_toList]
  rfl

/-! ## Order -/

/-- The order is accepted if no id is greater than the next. -/
theorem verifySorted_eq_ok_iff :
    t.verifySorted = .ok () ↔ ∀ (i : Nat) (h : i + 1 < t.stored.length),
      t.stored[i].posIndex ≤ t.stored[i + 1].posIndex := by
  rw [verifySorted_eq 0, judge, Rules.judge_eq_ok_iff, List.forall_mem_map, length_div_eq]
  simp only [getElem_stored, length_stored, List.mem_range, Rule.Holds, Nat.lt_sub_iff_add_lt]

/-- Neighbours in order are enough for all records to be in order. -/
theorem verifySorted_eq_ok_iff_pairwise :
    t.verifySorted = .ok () ↔ t.stored.Pairwise fun r s => r.posIndex ≤ s.posIndex := by
  have hpairwise := @pairwise_records_iff t.data.toList
  rw [length_div_eq, ← stored] at hpairwise
  rw [verifySorted_eq_ok_iff, hpairwise]
  simp only [getElem_stored, length_stored, Nat.lt_sub_iff_add_lt]

/-- The check of order reports the first record that is below the one before it. -/
theorem verifySorted_eq_error_iff {f : Failure} :
    t.verifySorted = .error f ↔ ∃ (i : Nat) (h : i + 1 < t.stored.length),
      (∀ (j : Nat) (_ : j < i), t.stored[j].posIndex ≤ t.stored[j + 1].posIndex) ∧
      t.stored[i + 1].posIndex < t.stored[i].posIndex ∧
      f = .error (orderError (i + 1) t.stored[i + 1].posIndex t.stored[i].posIndex) := by
  rw [verifySorted_eq 0, judge_range_eq_error_iff, length_div_eq]
  simp only [getElem_stored, length_stored, Rule.Holds, Std.not_le]
  constructor
  · rintro ⟨i, hi, hbefore, hbroken, rfl⟩
    exact ⟨i, Nat.add_lt_of_lt_sub hi, hbefore, hbroken, rfl⟩
  · rintro ⟨i, hi, hbefore, hbroken, rfl⟩
    exact ⟨i, Nat.lt_sub_of_add_lt hi, hbefore, hbroken, rfl⟩

/-! ## String indices -/

/-- The check of string indices reports the first record that refers to a string that is not
there. -/
theorem verifyStringIndices_eq_error_iff {f : Failure} :
    t.verifyStringIndices count = .error f ↔ ∃ (i : Nat) (h : i < t.stored.length),
      (∀ (j : Nat) (_ : j < i), t.stored[j].RefersBelow count) ∧
      ¬ t.stored[i].RefersBelow count ∧
      f = .error (indexError i t.stored[i].maxStringIndex count) := by
  rw [verifyStringIndices_eq, judge_range_eq_error_iff, length_div_eq]
  simp only [getElem_stored, length_stored, Rule.Holds]
  constructor
  · rintro ⟨i, hi, hbefore, hbroken, rfl⟩
    exact ⟨i, hi, hbefore, hbroken, rfl⟩
  · rintro ⟨i, hi, hbefore, hbroken, rfl⟩
    exact ⟨i, hi, hbefore, hbroken, rfl⟩

/-- The greater of two indices is one of them and not below either. -/
instance : Std.LawfulOrderMax UInt16 := by
  have hmax (a b : UInt16) : max a b = if a ≤ b then b else a := rfl
  refine .of_le_max (fun a b => ?left) (fun a b => ?right) fun a b => ?either
  case left =>
    rw [hmax]
    split
    next h => exact h
    next h => exact Std.le_refl a
  case right =>
    rw [hmax]
    split
    next h => exact Std.le_refl b
    next h => exact (UInt16.le_total a b).resolve_left h
  case either =>
    rw [hmax]
    split
    next h => exact .inr rfl
    next h => exact .inl rfl

/-- The index that is reported is one of the three of the record, and none is greater. -/
theorem isGreatest_maxStringIndex (r : TokenRecord) :
    IsGreatest {r.posIndex, r.valueSuffixIndex, r.keySuffixIndex} r.maxStringIndex := by
  unfold TokenRecord.maxStringIndex
  constructor
  · rcases Std.max_eq_or (a := max r.posIndex r.valueSuffixIndex) (b := r.keySuffixIndex) with
      h | h
    · rcases Std.max_eq_or (a := r.posIndex) (b := r.valueSuffixIndex) with h' | h'
      · rw [h, h']
        exact .inl rfl
      · rw [h, h']
        exact .inr (.inl rfl)
    · rw [h]
      exact .inr (.inr rfl)
  · rintro index (rfl | rfl | rfl)
    · exact Std.le_trans Std.left_le_max Std.left_le_max
    · exact Std.le_trans Std.right_le_max Std.left_le_max
    · exact Std.right_le_max

/-! ## Verdicts -/

/-- **The checks of records are exact and report the least ordinal.** The order of an array passes
if and only if no record carries a lower POS index than the one before it, or than any one before
it; otherwise the first record that does is reported with both indices. The string indices pass if
and only if every record refers below `count` with all three of its indices; otherwise the first
record that does not is reported with the greatest of its indices. Every refusal is for malformed
data. -/
theorem checks_report_least_ordinal (t : TokenArray) :
    (t.verifySorted = .ok () ↔ ∀ (i : Nat) (_ : i + 1 < t.stored.length),
      t.stored[i].posIndex ≤ t.stored[i + 1].posIndex) ∧
    (t.verifySorted = .ok () ↔ ∀ (i j : Nat) (_ : i < j) (_ : j < t.stored.length),
      t.stored[i].posIndex ≤ t.stored[j].posIndex) ∧
    (∀ f, t.verifySorted = .error f ↔ ∃ (i : Nat) (_ : i + 1 < t.stored.length),
      (∀ (j : Nat) (_ : j < i), t.stored[j].posIndex ≤ t.stored[j + 1].posIndex) ∧
      t.stored[i + 1].posIndex < t.stored[i].posIndex ∧
      f = .error (orderError (i + 1) t.stored[i + 1].posIndex t.stored[i].posIndex)) ∧
    (∀ count, t.verifyStringIndices count = .ok () ↔ ∀ r ∈ t.stored,
      r.posIndex.toNat < count ∧ r.valueSuffixIndex.toNat < count ∧
        r.keySuffixIndex.toNat < count) ∧
    (∀ count f, t.verifyStringIndices count = .error f ↔ ∃ (i : Nat) (_ : i < t.stored.length),
      (∀ (j : Nat) (_ : j < i), t.stored[j].RefersBelow count) ∧
      ¬ t.stored[i].RefersBelow count ∧ ∃ greatest,
        IsGreatest {t.stored[i].posIndex, t.stored[i].valueSuffixIndex,
          t.stored[i].keySuffixIndex} greatest ∧
        f = .error (indexError i greatest count)) ∧
    ∀ count f, t.verifySorted = .error f ∨ t.verifyStringIndices count = .error f →
      ∃ e, f = .error e ∧ e.isInvalidFormat := by
  refine ⟨verifySorted_eq_ok_iff, ?_, fun f => verifySorted_eq_error_iff,
    fun count => verifyStringIndices_eq_ok_iff, fun count f => ?_, fun count f hf => ?_⟩
  · rw [verifySorted_eq_ok_iff_pairwise, List.pairwise_iff_getElem]
    exact ⟨fun h i j hij hj => h i j (by omega) hj hij, fun h i j _ hj hij => h i j hij hj⟩
  · rw [verifyStringIndices_eq_error_iff]
    constructor
    · rintro ⟨i, hi, hbefore, hbeyond, rfl⟩
      exact ⟨i, hi, hbefore, hbeyond, _, isGreatest_maxStringIndex _, rfl⟩
    · rintro ⟨i, hi, hbefore, hbeyond, greatest, hgreatest, rfl⟩
      refine ⟨i, hi, hbefore, hbeyond, ?_⟩
      have hle := hgreatest.2 (isGreatest_maxStringIndex t.stored[i]).1
      have hge := (isGreatest_maxStringIndex t.stored[i]).2 hgreatest.1
      rw [Std.le_antisymm hge hle]
  · rcases hf with hf | hf
    · obtain ⟨i, _, -, -, rfl⟩ := verifySorted_eq_error_iff.mp hf
      exact ⟨_, rfl, rfl⟩
    · obtain ⟨i, _, -, -, rfl⟩ := verifyStringIndices_eq_error_iff.mp hf
      exact ⟨_, rfl, rfl⟩

end PosDictionary.TokenArray
