import PosDictionary.Proofs.TokenArray.Acceptance

/-!
# Searches in ascending keys

The keys at the positions below `len` ascend when none is below one before it. A search halves what
is left and reads few of them, yet it finds what a scan of all positions finds, `AgreesWithScan`:

* the lower bound is the number of keys below the target, the upper bound that of keys up to it;
* the span between the two has the positions of the target, and no others. Its end is sought from
  its start on only, and still it is the upper bound;
* the position that is found is the first one of the target, and without the target there is none.

The records of a token array that passes the check of their order have such keys, and so the span
of a POS has the ordinals of its records, `searches_agree_with_scan`.
-/

namespace PosDictionary

namespace Search

section ascending

variable {K : Type} [LT K] [DecidableLT K]

/-- The number of keys below the target. -/
def countBelow (len : Nat) (key : Nat → K) (target : K) : Nat :=
  (List.range len).countP fun i => key i < target

variable [LE K]

/-- The number of keys up to the target. -/
def countUpTo [DecidableLE K] (len : Nat) (key : Nat → K) (target : K) : Nat :=
  (List.range len).countP fun i => key i ≤ target

variable [Std.IsLinearOrder K] [Std.LawfulOrderLT K] {len : Nat} {key : Nat → K}
variable (ascending : ∀ i j, i ≤ j → j < len → key i ≤ key j) (target : K)

/-! ## The bounds of a target -/

section bounds

include ascending

/-- The lower bound counts the keys below the target. -/
theorem lowerBound_told_eq :
    lowerBound len target (told key) = .ok (countBelow len key target) := by
  have hfound := lowerBound_eq (pairwise_keysOf ascending) target (read_keysOf len key)
  rwa [length_keysOf, countP_keysOf] at hfound

/-- The positions before the lower bound have a key below the target, and no others have. -/
theorem lt_countBelow_iff {i : Nat} (h : i < len) :
    i < countBelow len key target ↔ key i < target := by
  have hlt := lt_countP_lt_iff (pairwise_keysOf ascending) target (i := i) (by simpa using h)
  rwa [countP_keysOf, getElem_keysOf] at hlt

end bounds

variable [DecidableLE K]

/-- Counting the keys that are not above the target is counting those up to it. -/
theorem countP_not_lt_keysOf :
    (keysOf len key).countP (¬ target < ·) = countUpTo len key target := by
  rw [countP_keysOf]
  refine List.countP_congr fun i _ => ?_
  rw [decide_eq_true_iff, decide_eq_true_iff, Std.not_lt]

omit [LT K] [DecidableLT K] [Std.IsLinearOrder K] [Std.LawfulOrderLT K] in
/-- There are no more keys up to the target than keys. -/
theorem countUpTo_le (len : Nat) (key : Nat → K) (target : K) : countUpTo len key target ≤ len :=
  List.countP_le_length.trans_eq List.length_range

include ascending

/-- The upper bound counts the keys up to the target. -/
theorem upperBound_told_eq :
    upperBound len target (told key) = .ok (countUpTo len key target) := by
  have hfound := upperBound_eq (pairwise_keysOf ascending) target (read_keysOf len key)
  rwa [length_keysOf, countP_not_lt_keysOf] at hfound

/-- The positions before the upper bound have a key up to the target, and no others have. -/
theorem lt_countUpTo_iff {i : Nat} (h : i < len) :
    i < countUpTo len key target ↔ key i ≤ target := by
  have hlt := lt_countP_not_lt_iff (pairwise_keysOf ascending) target (i := i) (by simpa using h)
  rwa [countP_not_lt_keysOf, getElem_keysOf, Std.not_lt] at hlt

/-- The equal range lies between the two counts. -/
theorem equalRange_told_eq :
    equalRange len target (told key) =
      .ok ⟨countBelow len key target, countUpTo len key target⟩ := by
  have hfound := equalRange_eq (pairwise_keysOf ascending) target (read_keysOf len key)
  rwa [length_keysOf, countP_keysOf, countP_not_lt_keysOf] at hfound

/-- Between the two counts are the places of the target. -/
theorem mem_span_iff (i : Nat) :
    i ∈ (⟨countBelow len key target, countUpTo len key target⟩ : Span) ↔
      i < len ∧ key i = target := by
  have hle := countUpTo_le len key target
  show countBelow len key target ≤ i ∧ i < countUpTo len key target ↔ _
  by_cases hi : i < len
  · rw [← Nat.not_lt, lt_countBelow_iff ascending target hi, lt_countUpTo_iff ascending target hi,
      Std.not_lt, and_iff_right hi]
    constructor
    · rintro ⟨hge, hle⟩
      exact Std.le_antisymm hle hge
    · rintro rfl
      exact ⟨Std.le_refl _, Std.le_refl _⟩
  · constructor
    · rintro ⟨-, hlt⟩
      omega
    · rintro ⟨hlt, -⟩
      exact absurd hlt hi

omit ascending in
/-- Without the target, the keys up to it are those below it. -/
theorem countUpTo_of_absent (absent : ∀ i < len, key i ≠ target) :
    countUpTo len key target = countBelow len key target := by
  refine List.countP_congr fun i hi => ?_
  rw [decide_eq_true_iff, decide_eq_true_iff]
  refine ⟨fun hle => ?_, Std.le_of_lt⟩
  exact Std.lt_of_le_of_ne hle (absent i (List.mem_range.mp hi))

/-! ## The searches and a scan -/

variable [DecidableEq K]

omit [DecidableLE K] in
/-- What is found is the first place of the target. -/
theorem find_told_eq : find len target (told key) = .ok ((keysOf len key).idxOf? target) := by
  have hfound := find_eq (pairwise_keysOf ascending) target (read_keysOf len key)
  rwa [length_keysOf] at hfound

omit [DecidableLE K] in
/-- A target that occurs is found at its lower bound. -/
theorem find_told_of_mem (present : ∃ i < len, key i = target) :
    find len target (told key) = .ok (some (countBelow len key target)) := by
  have hmem := (mem_keysOf_iff len key).mpr present
  have hplace := idxOf?_eq_lowerBound (pairwise_keysOf ascending) target
  rw [find_told_eq ascending, countBelow, ← countP_keysOf len key (· < target)]
  split at hplace
  · rw [hplace]
  · exact absurd hmem (List.idxOf?_eq_none_iff.mp hplace)

end ascending

variable {K : Type} [LT K] [DecidableLT K] [LE K] [DecidableLE K] [DecidableEq K]

/-- The searches for a target among the keys at the positions below `len` find what a scan of these
positions finds. -/
structure AgreesWithScan (len : Nat) (key : Nat → K) (target : K) : Prop where
  /-- The lower bound is the number of keys below the target. -/
  lowerBound_eq : lowerBound len target (told key) = .ok (countBelow len key target)
  /-- These keys have the positions before it. -/
  lt_lowerBound_iff : ∀ i < len, i < countBelow len key target ↔ key i < target
  /-- The upper bound is the number of keys up to the target. -/
  upperBound_eq : upperBound len target (told key) = .ok (countUpTo len key target)
  /-- These keys have the positions before it. -/
  lt_upperBound_iff : ∀ i < len, i < countUpTo len key target ↔ key i ≤ target
  /-- The span of the target lies between the two bounds. -/
  equalRange_eq : equalRange len target (told key) =
    .ok ⟨countBelow len key target, countUpTo len key target⟩
  /-- It has the positions of the target and no others. -/
  mem_equalRange_iff : ∀ i, i ∈ (⟨countBelow len key target, countUpTo len key target⟩ : Span) ↔
    i < len ∧ key i = target
  /-- Without the target, it is empty, and it lies where the keys below the target end. -/
  equalRange_of_absent : (∀ i < len, key i ≠ target) → equalRange len target (told key) =
    .ok ⟨countBelow len key target, countBelow len key target⟩
  /-- A target that occurs is found at its lower bound. -/
  find_of_mem : (∃ i < len, key i = target) →
    find len target (told key) = .ok (some (countBelow len key target))
  /-- The position that is found is the first one of the target. -/
  find_first : ∀ p, find len target (told key) = .ok (some p) →
    p < len ∧ key p = target ∧ ∀ i < p, key i ≠ target
  /-- Without the target, nothing is found. -/
  find_of_absent : (∀ i < len, key i ≠ target) → find len target (told key) = .ok none

/-- On keys that do not decrease, every search agrees with a scan. -/
theorem agreesWithScan [Std.IsLinearOrder K] [Std.LawfulOrderLT K] {len : Nat} {key : Nat → K}
    (ascending : ∀ i j, i ≤ j → j < len → key i ≤ key j) (target : K) :
    AgreesWithScan len key target where
  lowerBound_eq := lowerBound_told_eq ascending target
  lt_lowerBound_iff _ hi := lt_countBelow_iff ascending target hi
  upperBound_eq := upperBound_told_eq ascending target
  lt_upperBound_iff _ hi := lt_countUpTo_iff ascending target hi
  equalRange_eq := equalRange_told_eq ascending target
  mem_equalRange_iff := mem_span_iff ascending target
  equalRange_of_absent absent := by
    rw [equalRange_told_eq ascending, countUpTo_of_absent target absent]
  find_of_mem := find_told_of_mem ascending target
  find_first p hp := by
    rw [find_told_eq ascending] at hp
    obtain ⟨hlt, hkey, hbefore⟩ := List.idxOf?_eq_some_iff.mp (Except.ok.inj hp)
    rw [length_keysOf] at hlt
    rw [getElem_keysOf] at hkey
    refine ⟨hlt, hkey, fun i hi => ?_⟩
    have hne := hbefore i hi
    rwa [getElem_keysOf] at hne
  find_of_absent absent := by
    rw [find_told_eq ascending, List.idxOf?_eq_none_iff.mpr]
    rw [mem_keysOf_iff]
    rintro ⟨i, hi, heq⟩
    exact absent i hi heq

end Search

namespace TokenArray

/-- An array that passes the check of its order has its records in the order of their POS. -/
theorem pairwise_of_verifySorted {t : TokenArray} (h : t.verifySorted = .ok ()) :
    t.stored.Pairwise fun r s => r.posIndex ≤ s.posIndex := by
  rw [verifySorted_eq 0] at h
  refine Layout.pairwise_records_iff.mpr fun i hi => ?_
  exact Rules.judge_eq_ok_iff.mp h (.ordered i) (List.mem_map_of_mem (List.mem_range.mpr hi))

/-- In an array that passes the check of its order, the span of a POS has the ordinals of its
records. -/
theorem exists_equalRange_of_verifySorted {t : TokenArray} (h : t.verifySorted = .ok ())
    (id : UInt16) :
    ∃ span, t.equalRange id = .ok span ∧ span.start ≤ span.stop ∧ span.stop ≤ t.len ∧
      ∀ i, i ∈ span ↔ ∃ r, t.get? i = .ok (some r) ∧ r.posIndex = id := by
  have sorted := pairwise_of_verifySorted h
  obtain ⟨hle, hstop⟩ := runOf_within t.stored id
  refine ⟨_, equalRange_eq sorted id, hle, length_stored t ▸ hstop, fun i => ?_⟩
  rw [get?_eq]
  by_cases hi : i < t.stored.length
  · rw [mem_runOf_iff sorted hi, List.getElem?_eq_getElem hi]
    constructor
    · intro hid
      exact ⟨_, rfl, hid⟩
    · rintro ⟨r, hr, rfl⟩
      rw [Option.some_inj.mp (Except.ok.inj hr)]
  · rw [List.getElem?_eq_none (Nat.le_of_not_lt hi)]
    constructor
    · rintro ⟨-, hlt⟩
      omega
    · rintro ⟨r, hr, -⟩
      cases Except.ok.inj hr

/-- **Searches in ascending keys find what a scan finds.** Whatever the order of the keys is and
however many positions there are, as long as no key is below one before it. In particular the span
of each POS has the ordinals of its records and no others, in every token array that passes the
check of its order. -/
theorem searches_agree_with_scan :
    (∀ {K : Type} [LT K] [DecidableLT K] [LE K] [DecidableLE K] [DecidableEq K]
      [Std.IsLinearOrder K] [Std.LawfulOrderLT K] (len : Nat) (key : Nat → K) (target : K),
      (∀ i j, i ≤ j → j < len → key i ≤ key j) → Search.AgreesWithScan len key target) ∧
    ∀ t : TokenArray, t.verifySorted = .ok () → ∀ id : UInt16,
      ∃ span, t.equalRange id = .ok span ∧ span.start ≤ span.stop ∧ span.stop ≤ t.len ∧
        ∀ i, i ∈ span ↔ ∃ r, t.get? i = .ok (some r) ∧ r.posIndex = id := by
  constructor
  · intro K _ _ _ _ _ _ _ len key target ascending
    exact Search.agreesWithScan ascending target
  · intro t h id
    exact exists_equalRange_of_verifySorted h id

/-- Keys some of which stand at several positions. -/
def repeatedKeys (i : Nat) : Nat := [1, 1, 2, 4, 4, 4, 7].getD i 0

/-- A form of the first POS and two of the last one that there can be. -/
def firstAndLastPos : TokenArray :=
  ⟨.ofArray #[0, 0, 0, 0, 0, 0, 1, 0, 255, 255, 0, 0, 0, 0, 2, 0, 255, 255, 0, 0, 0, 0, 3, 0] 0⟩

/-- Keys that are repeated, and an array with the first and the last id. -/
theorem searches_agree_with_scan_repeatedKeys :
    ((∀ i j, i ≤ j → j < 7 → repeatedKeys i ≤ repeatedKeys j) ∧
      ∀ target, Search.AgreesWithScan 7 repeatedKeys target) ∧
    firstAndLastPos.verifySorted = .ok () ∧
      ∃ span, firstAndLastPos.equalRange 65535 = .ok span ∧ span.start ≤ span.stop ∧ span.stop ≤ 3 ∧
        ∀ i, i ∈ span ↔ ∃ r, firstAndLastPos.get? i = .ok (some r) ∧ r.posIndex = 65535 := by
  obtain ⟨hkeys, harrays⟩ := searches_agree_with_scan
  have hbelow : ∀ j < 7, ∀ i < j + 1, repeatedKeys i ≤ repeatedKeys j := by decide
  have ascending : ∀ i j, i ≤ j → j < 7 → repeatedKeys i ≤ repeatedKeys j := fun i j hij hj =>
    hbelow j hj i (Nat.lt_succ_of_le hij)
  have sorted : firstAndLastPos.verifySorted = .ok () := by rfl
  refine ⟨⟨ascending, fun target => hkeys 7 repeatedKeys target ascending⟩, sorted, ?_⟩
  exact harrays firstAndLastPos sorted 65535

end TokenArray

end PosDictionary
