/-!
# Sorting by a key

Items are sorted by `List.mergeSort` with a comparison of their keys. The result is in the order of
the keys, and sorting is stable: items with the same key keep their order, `filter_sortedBy`. These
two facts leave no choice, `eq_of_filter_eq`.
-/

namespace PosDictionary.Sorting

variable {α K : Type}

/-! ## Items of one key -/

section Keys

variable [DecidableEq K] (key : α → K) {items others : List α}

/-- Lists with the same items of each key have the same items. -/
theorem mem_iff_of_filter_eq (same : ∀ k, items.filter (key · = k) = others.filter (key · = k))
    (a : α) : a ∈ items ↔ a ∈ others := by
  have hmem := congrArg (a ∈ ·) (same (key a))
  simpa using hmem

variable [LE K] [Std.IsLinearOrder K]

/-- Items in the order of their keys are determined by the items of each key. -/
theorem eq_of_filter_eq (sorted : items.Pairwise fun a b => key a ≤ key b)
    (othersSorted : others.Pairwise fun a b => key a ≤ key b)
    (same : ∀ k, items.filter (key · = k) = others.filter (key · = k)) : items = others := by
  induction items generalizing others with
  | nil =>
    have hmem := mem_iff_of_filter_eq key same
    cases others with
    | nil => rfl
    | cons b others => simpa using hmem b
  | cons a items ih =>
    have hmem := mem_iff_of_filter_eq key same
    cases others with
    | nil => simpa using hmem a
    | cons b others =>
      obtain ⟨ha, hitems⟩ := List.pairwise_cons.mp sorted
      obtain ⟨hb, hothers⟩ := List.pairwise_cons.mp othersSorted
      -- Each head occurs in the other list, so that neither has the greater key.
      have hle : key a ≤ key b := by
        rcases List.mem_cons.mp ((hmem b).mpr List.mem_cons_self) with heq | hmem
        · exact Std.le_of_eq (congrArg key heq.symm)
        · exact ha b hmem
      have hge : key b ≤ key a := by
        rcases List.mem_cons.mp ((hmem a).mp List.mem_cons_self) with heq | hmem
        · exact Std.le_of_eq (congrArg key heq.symm)
        · exact hb a hmem
      have hkey := Std.le_antisymm hle hge
      obtain ⟨rfl, -⟩ : a = b ∧ items.filter (key · = key b) = others.filter (key · = key b) := by
        simpa [hkey] using same (key a)
      have hrest : ∀ k, items.filter (key · = k) = others.filter (key · = k) := by
        intro k
        have hk := same k
        rw [List.filter_cons, List.filter_cons] at hk
        split at hk
        · exact (List.cons.inj hk).2
        · exact hk
      rw [ih hitems hothers hrest]

end Keys

/-! ## Sorted items -/

variable [LE K] [DecidableLE K] [Std.IsLinearOrder K]

/-- The items in the order of their keys. -/
abbrev sortedBy (key : α → K) (items : List α) : List α :=
  items.mergeSort fun a b => decide (key a ≤ key b)

/-- The order of keys is transitive, as sorting asks it. -/
theorem le_trans_of_keys (key : α → K) (a b c : α) (hab : decide (key a ≤ key b))
    (hbc : decide (key b ≤ key c)) : decide (key a ≤ key c) :=
  decide_eq_true (Std.le_trans (of_decide_eq_true hab) (of_decide_eq_true hbc))

/-- The order of keys is total, as sorting asks it. -/
theorem le_total_of_keys (key : α → K) (a b : α) :
    decide (key a ≤ key b) || decide (key b ≤ key a) := by
  rw [Bool.or_eq_true, decide_eq_true_iff, decide_eq_true_iff]
  exact Std.le_total

/-- What is sorted is in the order of the keys. -/
theorem pairwise_sortedBy (key : α → K) (items : List α) :
    (sortedBy key items).Pairwise fun a b => key a ≤ key b := by
  apply (List.pairwise_mergeSort (le_trans_of_keys key) (le_total_of_keys key) items).imp
  exact fun h => of_decide_eq_true h

/-- Items with the same key keep their order. -/
theorem filter_sortedBy [DecidableEq K] (key : α → K) (items : List α) (k : K) :
    (sortedBy key items).filter (key · = k) = items.filter (key · = k) := by
  have hkeys : (items.filter (key · = k)).Pairwise fun a b => decide (key a ≤ key b) := by
    apply List.pairwise_of_forall_mem_list
    intro a ha b hb
    have ha : key a = k := of_decide_eq_true (List.mem_filter.mp ha).2
    have hb : key b = k := of_decide_eq_true (List.mem_filter.mp hb).2
    exact decide_eq_true (Std.le_of_eq (ha.trans hb.symm))
  have hkept : (items.filter (key · = k)).filter (key · = k) = items.filter (key · = k) :=
    List.filter_eq_self.mpr fun a ha => (List.mem_filter.mp ha).2
  -- The items with the key are a sublist of the sorted ones, and there are no more of them there.
  have hsub := (List.sublist_mergeSort (le_trans_of_keys key) (le_total_of_keys key) hkeys
    List.filter_sublist).filter (key · = k)
  rw [hkept] at hsub
  refine (hsub.eq_of_length ?_).symm
  rw [((List.mergeSort_perm items _).filter _).length_eq]

end PosDictionary.Sorting
