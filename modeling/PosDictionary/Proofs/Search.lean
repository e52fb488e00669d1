import PosDictionary.Search

/-!
# What the bound searches find

A search computes in checked numbers. No number that comes up exceeds its upper bound, so words that
hold this bound are wide enough and no check fails: `narrow_of_lt` is a round of the search, said
without the checks.

Whatever question is asked, a search ends where the answers turn from yes to no (`TurnsAt`), so it
never leaves the positions that it is given. A question that is answered yes below a `cut` and no
from it on turns at its cut only: `partitionPoint_eq_of_cut`. In an ascending list of keys the
positions below a target form such an initial part, as long as the number of those keys
(`lt_countP_iff`), so that

* `lowerBound` is the number of keys below the target, `upperBound` the number of keys not above;
* `equalRange` is the span between the two, and `find` the first position of the target.

The keys are read in any lawful monad, by a `keyAt` that gives the key at each position.
-/

namespace PosDictionary.Search

variable {m : Type → Type} [Monad m] [LawfulMonad m] [MonadExceptOf Fault m]

/-! ## Checked numbers -/

/-- A sum that fits its word is had. -/
theorem checkedAdd_eq {limit a b : Nat} (fits : a + b ≤ limit) :
    checkedAdd limit a b = .ok ⟨a + b, rfl⟩ :=
  if_pos fits

/-- A difference that is not negative is had. -/
theorem checkedSub_eq {a b : Nat} (h : b ≤ a) :
    checkedSub a b = .ok ⟨a - b, Nat.sub_add_cancel h⟩ :=
  dif_pos h

omit [LawfulMonad m] in
/-- A result that is had is taken over. -/
theorem liftExcept_ok {α : Type} (a : α) : (liftExcept (.ok a : Except Fault α) : m α) = pure a :=
  rfl

section rounds

variable {limit lo hi : Nat}

/-- A round of a search whose upper bound fits the words: the position in the middle is asked. Every
number is at most the upper bound, so none is refused. -/
theorem narrow_of_lt (holds : Nat → m Bool) (h : lo < hi) (fits : hi ≤ limit) :
    narrow limit holds lo hi = holds (lo + (hi - lo) / 2) >>= fun yes =>
      if yes then narrow limit holds (lo + (hi - lo) / 2 + 1) hi
      else narrow limit holds lo (lo + (hi - lo) / 2) := by
  have hmid : lo + (hi - lo) / 2 ≤ limit := by omega
  have hnext : lo + (hi - lo) / 2 + 1 ≤ limit := by omega
  rw [narrow, dif_pos h, checkedSub_eq (Nat.le_of_lt h), liftExcept_ok, pure_bind]
  simp only [checkedAdd_eq hmid, checkedAdd_eq hnext, liftExcept_ok, pure_bind]

omit [LawfulMonad m] in
/-- Without positions that are left, a search has ended. -/
theorem narrow_of_ge (holds : Nat → m Bool) (h : hi ≤ lo) :
    narrow limit holds lo hi = pure lo := by
  rw [narrow, dif_neg (Nat.not_lt.mpr h)]

/-- What holds of positions that are none, and of positions if it holds of those on both sides of
their middle, holds of all positions that a search may have left. -/
theorem window_induction {motive : Nat → Nat → Prop}
    (round : ∀ lo hi, lo < hi → motive (lo + (hi - lo) / 2 + 1) hi →
      motive lo (lo + (hi - lo) / 2) → motive lo hi)
    (done : ∀ lo hi, hi ≤ lo → motive lo hi) (lo hi : Nat) : motive lo hi :=
  if h : lo < hi then
    round lo hi h (window_induction round done _ _) (window_induction round done _ _)
  else
    done lo hi (Nat.le_of_not_lt h)
termination_by hi - lo

/-- A search depends only on what is asked at the positions that are left, and not on its words, as
long as these are wide enough. -/
theorem narrow_congr {limit' : Nat} {holds holds' : Nat → m Bool}
    (same : ∀ i, lo ≤ i → i < hi → holds i = holds' i) (fits : hi ≤ limit) (fits' : hi ≤ limit') :
    narrow limit holds lo hi = narrow limit' holds' lo hi := by
  induction lo, hi using window_induction with
  | round lo hi hlt ihRight ihLeft =>
    have hmid : lo ≤ lo + (hi - lo) / 2 ∧ lo + (hi - lo) / 2 < hi := by omega
    rw [narrow_of_lt holds hlt fits, narrow_of_lt holds' hlt fits', same _ hmid.1 hmid.2,
      ihRight (fun i h₁ h₂ => same i (by omega) h₂) fits fits',
      ihLeft (fun i h₁ h₂ => same i h₁ (by omega)) (by omega) (by omega)]
  | done lo hi hge => rw [narrow_of_ge holds hge, narrow_of_ge holds' hge]

end rounds

/-! ## Turning points -/

/-- At `cut`, the answers from `lo` up to `hi` turn: the last one before it, if there is one, is
yes, and the first one from it on is no. -/
structure TurnsAt (answer : Nat → Bool) (lo hi cut : Nat) : Prop where
  /-- The cut is not before the answers. -/
  above : lo ≤ cut
  /-- The cut is not behind the answers. -/
  below : cut ≤ hi
  /-- Right before the cut, the answer is yes. -/
  yes_before : lo < cut → answer (cut - 1) = true
  /-- At the cut, the answer is no. -/
  no_at : cut < hi → answer cut = false

/-- Whatever the answers are, the search ends where they turn. -/
theorem exists_narrow {limit lo hi : Nat} {holds : Nat → m Bool} {answer : Nat → Bool}
    (asked : ∀ i, lo ≤ i → i < hi → holds i = pure (answer i)) (h : lo ≤ hi) (fits : hi ≤ limit) :
    ∃ cut, narrow limit holds lo hi = pure cut ∧ TurnsAt answer lo hi cut := by
  induction lo, hi using window_induction with
  | round lo hi hlt ihRight ihLeft =>
    have hmid : lo ≤ lo + (hi - lo) / 2 ∧ lo + (hi - lo) / 2 < hi := by omega
    rw [narrow_of_lt holds hlt fits, asked _ hmid.1 hmid.2, pure_bind]
    generalize lo + (hi - lo) / 2 = mid at *
    cases hanswer : answer mid with
    | true =>
      obtain ⟨cut, hcut, turns⟩ := ihRight (fun i h₁ h₂ => asked i (by omega) h₂) hmid.2 fits
      have habove := turns.above
      refine ⟨cut, hcut, by omega, turns.below, fun _ => ?_, turns.no_at⟩
      rcases Nat.lt_or_eq_of_le habove with hlt | rfl
      · exact turns.yes_before hlt
      · exact hanswer
    | false =>
      obtain ⟨cut, hcut, turns⟩ := ihLeft (fun i h₁ h₂ => asked i h₁ (by omega)) hmid.1 (by omega)
      have hbelow := turns.below
      refine ⟨cut, hcut, turns.above, by omega, turns.yes_before, fun _ => ?_⟩
      rcases Nat.lt_or_eq_of_le hbelow with hlt | rfl
      · exact turns.no_at hlt
      · exact hanswer
  | done lo hi hge =>
    exact ⟨lo, narrow_of_ge holds hge, Nat.le_refl _, h, fun hlt => by omega, fun hlt => by omega⟩

/-- The search for a partition point finds where the answers turn. -/
theorem exists_partitionPoint {holds : Nat → m Bool} {answer : Nat → Bool} {len : Nat}
    (asked : ∀ i < len, holds i = pure (answer i)) :
    ∃ cut, partitionPoint len holds = pure cut ∧ TurnsAt answer 0 len cut :=
  exists_narrow (fun i _ h => asked i h) (Nat.zero_le _) (Nat.le_refl _)

/-- The search ends at the cut of its question, where it has one. -/
theorem partitionPoint_eq_of_cut {holds : Nat → m Bool} {cut len : Nat}
    (asked : ∀ i < len, holds i = pure (decide (i < cut))) (inside : cut ≤ len) :
    partitionPoint len holds = pure cut := by
  obtain ⟨found, hfound, turns⟩ := exists_partitionPoint asked
  have hbelow := turns.below
  have hyes := turns.yes_before
  have hno := turns.no_at
  simp only [decide_eq_true_iff, decide_eq_false_iff_not] at hyes hno
  obtain rfl : found = cut := by omega
  exact hfound

/-! ## Keys by position -/

section positions

variable {K : Type} (len : Nat) (key : Nat → K)

/-- The keys at the positions below `len`, in their order. -/
def keysOf : List K := (List.range len).map key

/-- As many keys are listed as there are places. -/
@[simp] theorem length_keysOf : (keysOf len key).length = len := by
  rw [keysOf, List.length_map, List.length_range]

/-- The key that is listed is the one at the place. -/
@[simp] theorem getElem_keysOf {i : Nat} (h : i < (keysOf len key).length) :
    (keysOf len key)[i] = key i := by
  simp only [keysOf, List.getElem_map, List.getElem_range]

/-- Counting keys is counting places. -/
theorem countP_keysOf (p : K → Bool) :
    (keysOf len key).countP p = (List.range len).countP fun i => p (key i) :=
  List.countP_map

/-- A key is listed if it is at a place. -/
theorem mem_keysOf_iff {k : K} : k ∈ keysOf len key ↔ ∃ i < len, key i = k := by
  simp only [keysOf, List.mem_map, List.mem_range]

/-- A function is a way to read its keys. -/
theorem read_keysOf (i : Nat) (h : i < (keysOf len key).length) :
    told key i = pure (keysOf len key)[i] :=
  congrArg Except.ok (getElem_keysOf len key h).symm

/-- Keys that do not decrease are listed in order. -/
theorem pairwise_keysOf [LE K] {len : Nat} {key : Nat → K}
    (ascending : ∀ i j, i ≤ j → j < len → key i ≤ key j) :
    (keysOf len key).Pairwise (· ≤ ·) := by
  unfold keysOf
  rw [List.pairwise_map]
  refine List.pairwise_lt_range.imp_of_mem fun {i j} _ hj hlt => ?_
  exact ascending i j (Nat.le_of_lt hlt) (List.mem_range.mp hj)

end positions

/-! ## Keys in any order -/

section unordered

variable {K : Type} {keys : List K} {keyAt : Nat → m K}

omit [MonadExceptOf Fault m] in
/-- The answers that a question about keys gives to a search. -/
theorem ask_eq (keys : List K) (ask : K → Bool)
    (read : ∀ (i : Nat) (h : i < keys.length), keyAt i = pure keys[i]) (i : Nat)
    (h : i < keys.length) :
    (do return ask (← keyAt i) : m Bool) = pure (keys[i]?.any ask) := by
  rw [read i h, pure_bind, List.getElem?_eq_getElem h, Option.any_some]

variable [LT K] [DecidableLT K]

omit [LT K] [DecidableLT K] in
/-- The keys behind `start` are those of the list from there on. -/
theorem read_keyBehind {start : Nat}
    (read : ∀ (i : Nat) (h : i < keys.length), keyAt i = pure keys[i]) (i : Nat)
    (h : i < (keys.drop start).length) :
    keyBehind keys.length start keyAt i = pure (keys.drop start)[i] := by
  rw [List.length_drop] at h
  have hplace : start + i < keys.length := by omega
  rw [keyBehind, checkedAdd_eq (Nat.le_of_lt hplace), liftExcept_ok, pure_bind,
    List.getElem_drop]
  exact read _ hplace

/-- A span is found when its start is, and when its length is found among the positions behind. -/
theorem equalRange_of_bounds {len start count : Nat} {target : K}
    (hstart : lowerBound len target keyAt = pure start)
    (hcount : upperBound (len - start) target (keyBehind len start keyAt) = pure count)
    (inside : start + count ≤ len) :
    equalRange len target keyAt = pure ⟨start, start + count⟩ := by
  have hle : start ≤ len := Nat.le_trans (Nat.le_add_right start count) inside
  rw [equalRange, hstart, pure_bind, checkedSub_eq hle, liftExcept_ok, pure_bind]
  show upperBound (len - start) target _ >>= _ = _
  rw [hcount, pure_bind, checkedAdd_eq inside, liftExcept_ok, pure_bind]

/-- Whatever the order of the keys, the span that is found lies among the positions. -/
theorem exists_equalRange (target : K)
    (read : ∀ (i : Nat) (h : i < keys.length), keyAt i = pure keys[i]) :
    ∃ span, equalRange keys.length target keyAt = pure span ∧
      span.start ≤ span.stop ∧ span.stop ≤ keys.length := by
  obtain ⟨start, hstart, turns⟩ := exists_partitionPoint
    (ask_eq keys (fun k => decide (k < target)) read)
  obtain ⟨count, hcount, more⟩ := exists_partitionPoint
    (ask_eq (keys.drop start) (fun k => decide (¬ target < k)) (read_keyBehind read))
  have hbelow := turns.below
  have hstop := more.below
  rw [List.length_drop] at hcount hstop
  have inside : start + count ≤ keys.length := by omega
  exact ⟨_, equalRange_of_bounds hstart hcount inside, Nat.le_add_right _ _, inside⟩

end unordered

/-! ## Cuts of ascending lists -/

variable {α : Type}

/-- Where the items with a property come before those without it, the items with it are as many
as the positions that they take. -/
theorem lt_countP_iff {p : α → Bool} {items : List α}
    (initial : items.Pairwise fun a b => p b → p a) {i : Nat} (h : i < items.length) :
    i < items.countP p ↔ p items[i] := by
  induction items generalizing i with
  | nil => simp at h
  | cons a items ih =>
    obtain ⟨ha, hitems⟩ := List.pairwise_cons.mp initial
    by_cases hp : p a
    · rw [List.countP_cons_of_pos hp]
      cases i with
      | zero => simpa using hp
      | succ i => simpa using ih hitems (by simpa using h)
    · have hnone : ∀ b ∈ items, ¬ p b := fun b hb hpb => hp (ha b hb hpb)
      rw [List.countP_cons_of_neg hp, List.countP_eq_zero.mpr hnone]
      have : ¬ p (a :: items)[i] := by
        rcases List.mem_cons.mp (List.getElem_mem h) with heq | hmem
        · rwa [heq]
        · exact hnone _ hmem
      simp [this]

/-! ## Keys in ascending order -/

variable {K : Type} [LT K] [DecidableLT K] [LE K] [Std.IsLinearOrder K] [Std.LawfulOrderLT K]
variable {keys : List K} {keyAt : Nat → m K}

/-- In order, the keys less than the target come first. -/
theorem lt_countP_lt_iff (ascending : keys.Pairwise (· ≤ ·)) (target : K) {i : Nat}
    (h : i < keys.length) : i < keys.countP (· < target) ↔ keys[i] < target := by
  rw [lt_countP_iff _ h, decide_eq_true_iff]
  refine ascending.imp fun hab hb => ?_
  simp only [decide_eq_true_eq] at hb ⊢
  exact Std.lt_of_le_of_lt hab hb

/-- In order, the keys not greater than the target come first. -/
theorem lt_countP_not_lt_iff (ascending : keys.Pairwise (· ≤ ·)) (target : K) {i : Nat}
    (h : i < keys.length) : i < keys.countP (¬ target < ·) ↔ ¬ target < keys[i] := by
  rw [lt_countP_iff _ h, decide_eq_true_iff]
  refine ascending.imp fun hab hb => ?_
  simp only [decide_eq_true_eq, Std.not_lt] at hb ⊢
  exact Std.le_trans hab hb

/-- The lower bound is the number of keys below the target. -/
theorem lowerBound_eq (ascending : keys.Pairwise (· ≤ ·)) (target : K)
    (read : ∀ (i : Nat) (h : i < keys.length), keyAt i = pure keys[i]) :
    lowerBound keys.length target keyAt = pure (keys.countP (· < target)) := by
  refine partitionPoint_eq_of_cut ?_ List.countP_le_length
  intro i hi
  rw [read i hi, pure_bind, decide_eq_decide.mpr (lt_countP_lt_iff ascending target hi)]

/-- The upper bound is the number of keys that are not above the target. -/
theorem upperBound_eq (ascending : keys.Pairwise (· ≤ ·)) (target : K)
    (read : ∀ (i : Nat) (h : i < keys.length), keyAt i = pure keys[i]) :
    upperBound keys.length target keyAt = pure (keys.countP (¬ target < ·)) := by
  refine partitionPoint_eq_of_cut ?_ List.countP_le_length
  intro i hi
  rw [read i hi, pure_bind, decide_eq_decide.mpr (lt_countP_not_lt_iff ascending target hi)]

/-- The keys that are not above the target are those below it and, behind them, those equal to
it. -/
theorem countP_not_lt_eq_add (ascending : keys.Pairwise (· ≤ ·)) (target : K) :
    keys.countP (¬ target < ·) =
      keys.countP (· < target) +
        (keys.drop (keys.countP (· < target))).countP (¬ target < ·) := by
  have hall : (keys.take (keys.countP (· < target))).countP (¬ target < ·) =
      keys.countP (· < target) := by
    rw [List.countP_eq_length.mpr, List.length_take, Nat.min_eq_left List.countP_le_length]
    intro k hk
    obtain ⟨i, hi, rfl⟩ := List.mem_take_iff_getElem.mp hk
    have hbelow := (lt_countP_lt_iff ascending target (by omega)).mp (by omega : i < _)
    exact decide_eq_true (Std.not_lt.mpr (Std.le_of_lt hbelow))
  conv => lhs; rw [← List.take_append_drop (keys.countP (· < target)) keys, List.countP_append]
  rw [hall]

/-- The positions of a target lie between its lower and its upper bound. -/
theorem equalRange_eq (ascending : keys.Pairwise (· ≤ ·)) (target : K)
    (read : ∀ (i : Nat) (h : i < keys.length), keyAt i = pure keys[i]) :
    equalRange keys.length target keyAt =
      pure ⟨keys.countP (· < target), keys.countP (¬ target < ·)⟩ := by
  have hrest : (keys.drop (keys.countP (· < target))).Pairwise (· ≤ ·) := ascending.drop
  have hcount := upperBound_eq hrest target (read_keyBehind read)
  have hstop : keys.countP (¬ target < ·) ≤ keys.length := List.countP_le_length
  rw [List.length_drop] at hcount
  rw [countP_not_lt_eq_add ascending target] at hstop ⊢
  exact equalRange_of_bounds (lowerBound_eq ascending target read) hcount hstop

/-! ## The first position of a key -/

section first

variable [DecidableEq K] [BEq K] [LawfulBEq K]

/-- A key that occurs stands at its lower bound, and nowhere before it. -/
theorem idxOf?_eq_lowerBound (ascending : keys.Pairwise (· ≤ ·)) (target : K) :
    keys.idxOf? target =
      if keys[keys.countP (· < target)]? = some target then some (keys.countP (· < target))
      else none := by
  have hbefore : ∀ (j : Nat) (hj : j < keys.length),
      j < keys.countP (· < target) → keys[j] ≠ target := fun j hj hlt heq =>
    Std.lt_irrefl (heq ▸ (lt_countP_lt_iff ascending target hj).mp hlt)
  split
  next hat =>
    obtain ⟨hpos, hat⟩ := List.getElem?_eq_some_iff.mp hat
    exact List.idxOf?_eq_some_iff.mpr ⟨hpos, hat, fun j hj => hbefore j (by omega) hj⟩
  next hat =>
    rw [List.idxOf?_eq_none_iff]
    intro hmem
    obtain ⟨j, hj, hkey⟩ := List.getElem_of_mem hmem
    -- The key at the bound is not below the target, and not above what occurs behind it.
    have hle : keys.countP (· < target) ≤ j := Nat.le_of_not_lt fun hlt => hbefore j hj hlt hkey
    have hpos : keys.countP (· < target) < keys.length := by omega
    have hnot : ¬ keys[keys.countP (· < target)] < target := fun hlt =>
      Nat.lt_irrefl _ ((lt_countP_lt_iff ascending target hpos).mpr hlt)
    have hsorted : keys[keys.countP (· < target)] ≤ keys[j] := by
      rcases Nat.lt_or_eq_of_le hle with hlt | heq
      · exact List.pairwise_iff_getElem.mp ascending _ j hpos hj hlt
      · exact Std.le_of_eq (by simp only [heq])
    exact hat (List.getElem?_eq_some_iff.mpr
      ⟨hpos, Std.le_antisymm (hkey ▸ hsorted) (Std.not_lt.mp hnot)⟩)

/-- A search for a key finds its first position. -/
theorem find_eq (ascending : keys.Pairwise (· ≤ ·)) (target : K)
    (read : ∀ (i : Nat) (h : i < keys.length), keyAt i = pure keys[i]) :
    find keys.length target keyAt = pure (keys.idxOf? target) := by
  unfold find
  rw [lowerBound_eq ascending target read, pure_bind, idxOf?_eq_lowerBound ascending target]
  split
  next hlt => simp [read _ hlt, List.getElem?_eq_getElem hlt]
  next hge => simp [List.getElem?_eq_none (Nat.le_of_not_lt hge)]

end first

/-! ## Searches with three answers -/

omit [MonadExceptOf Fault m] in
/-- Where the positions from `cut` on, and no others, are above the right one, the search settles
on the last position before them, or on the first of all. -/
theorem settle_eq_of_cut {compareAt : Nat → m Ordering} {base size cut : Nat}
    (asked : ∀ i < base + size, ∃ answer, compareAt i = pure answer ∧ (answer = .gt ↔ cut ≤ i))
    (hbase : base ≤ cut - 1) (hsize : cut - 1 < base + size) :
    settle compareAt base size = pure (cut - 1) := by
  fun_induction settle compareAt base size with
  | case1 base size hlt half mid ihBelow ihAbove =>
    have hhalf : 0 < half ∧ half ≤ size - half := by simp only [half]; omega
    have hmid : mid = base + half := rfl
    obtain ⟨answer, hanswer, habove⟩ := asked mid (by omega)
    rw [hanswer, pure_bind]
    by_cases hcut : cut ≤ mid
    · rw [if_pos (habove.mpr hcut)]
      exact ihBelow (fun i hi => asked i (by omega)) hbase (by omega)
    · rw [if_neg (mt habove.mp hcut)]
      exact ihAbove (fun i hi => asked i (by omega)) (by omega) (by omega)
  | case2 base size hge =>
    obtain rfl : base = cut - 1 := by omega
    rfl

/-- In strictly ascending keys, the upper bound of a key is right behind it. -/
theorem countP_not_lt_getElem (ascending : keys.Pairwise (· < ·)) {i : Nat} (h : i < keys.length) :
    keys.countP (¬ keys[i] < ·) = i + 1 := by
  have hle : keys.Pairwise (· ≤ ·) := ascending.imp Std.le_of_lt
  have hcut : keys.countP (¬ keys[i] < ·) ≤ keys.length := List.countP_le_length
  have hi : i < keys.countP (¬ keys[i] < ·) :=
    (lt_countP_not_lt_iff hle keys[i] h).mpr Std.lt_irrefl
  apply Nat.le_antisymm (Nat.le_of_not_lt fun hlt => ?_) hi
  have hnext := (lt_countP_not_lt_iff hle keys[i] (Nat.lt_of_lt_of_le hlt hcut)).mp hlt
  exact hnext (List.pairwise_iff_getElem.mp ascending i (i + 1) h _ (Nat.lt_succ_self i))

/-- Without the target, the keys that are not above it are those below it. -/
theorem countP_not_lt_of_not_mem {target : K} (absent : target ∉ keys) :
    keys.countP (¬ target < ·) = keys.countP (· < target) := by
  apply List.countP_congr
  intro k hk
  rw [decide_eq_true_iff, decide_eq_true_iff]
  constructor
  · intro hnot
    exact Std.lt_of_le_of_ne (Std.not_lt.mp hnot) fun heq => absent (heq ▸ hk)
  · exact fun hlt hgt => Std.lt_irrefl (Std.lt_trans hlt hgt)

section located

variable [DecidableEq K]

/-- A key compares as greater if the target is less. -/
theorem compareOfLessAndEq_eq_gt_iff (k target : K) :
    compareOfLessAndEq k target = .gt ↔ target < k :=
  compareOfLessAndEq_eq_gt (fun h h' => Std.le_antisymm h h') (fun _ _ => Std.le_total)
    Std.not_le k target

omit [MonadExceptOf Fault m] in
/-- In ascending keys, a search settles on the last key that is not above the target, or on the
first of all. -/
theorem settle_eq (ascending : keys.Pairwise (· ≤ ·)) (target : K) (hkeys : 0 < keys.length)
    (read : ∀ (i : Nat) (h : i < keys.length), keyAt i = pure keys[i]) :
    settle (fun i => do return compareOfLessAndEq (← keyAt i) target) 0 keys.length =
      pure (keys.countP (¬ target < ·) - 1) := by
  have hcut : keys.countP (¬ target < ·) ≤ keys.length := List.countP_le_length
  apply settle_eq_of_cut ?_ (Nat.zero_le _) (by omega)
  intro i hi
  rw [Nat.zero_add] at hi
  refine ⟨_, by rw [read i hi, pure_bind], ?_⟩
  rw [compareOfLessAndEq_eq_gt_iff, ← Nat.not_lt, lt_countP_not_lt_iff ascending target hi,
    Classical.not_not]

variable [BEq K] [LawfulBEq K]

omit [MonadExceptOf Fault m] in
/-- In strictly ascending keys, a key that occurs is located at its position, and any other key
where the keys above it begin. -/
theorem locate_eq (ascending : keys.Pairwise (· < ·)) (target : K)
    (read : ∀ (i : Nat) (h : i < keys.length), keyAt i = pure keys[i]) :
    locate keys.length (fun i => do return compareOfLessAndEq (← keyAt i) target) =
      pure (match keys.idxOf? target with
        | some i => .ok i
        | none => .error (keys.countP (· < target))) := by
  have hle : keys.Pairwise (· ≤ ·) := ascending.imp Std.le_of_lt
  unfold locate
  by_cases hpos : 0 < keys.length
  · rw [if_neg (Nat.ne_of_gt hpos), settle_eq hle target hpos read, pure_bind]
    cases hplace : keys.idxOf? target with
    | some i =>
      obtain ⟨hi, rfl, -⟩ := List.idxOf?_eq_some_iff.mp hplace
      rw [countP_not_lt_getElem ascending hi, Nat.add_sub_cancel]
      simp [read i hi, compareOfLessAndEq, Std.lt_irrefl]
    | none =>
      have habsent := List.idxOf?_eq_none_iff.mp hplace
      have hcut : keys.countP (· < target) ≤ keys.length := List.countP_le_length
      rw [countP_not_lt_of_not_mem habsent]
      -- The key that settles it is the last below the target, or the first of all if there is none.
      have hlast : keys.countP (· < target) - 1 < keys.length := by omega
      have hne : keys[keys.countP (· < target) - 1] ≠ target := fun heq =>
        habsent (heq ▸ List.getElem_mem hlast)
      have hbelow := lt_countP_lt_iff hle target hlast
      simp only [read _ hlast, pure_bind, compareOfLessAndEq, if_neg hne]
      by_cases hlt : keys[keys.countP (· < target) - 1] < target
      · have hsucc : keys.countP (· < target) - 1 + 1 = keys.countP (· < target) :=
          Nat.sub_add_cancel (Nat.lt_of_le_of_lt (Nat.zero_le _) (hbelow.mpr hlt))
        simp only [if_pos hlt]
        rw [hsucc]
      · have hzero : keys.countP (· < target) - 1 = keys.countP (· < target) := by
          have := mt hbelow.mp hlt
          omega
        simp only [if_neg hlt]
        rw [hzero]
  · rw [if_pos (Nat.eq_zero_of_not_pos hpos)]
    obtain rfl : keys = [] := List.eq_nil_of_length_eq_zero (Nat.eq_zero_of_not_pos hpos)
    rfl

end located

/-! ## Items between the bounds of a key -/

section items

variable (key : α → K) {items : List α} (target : K)

/-- An item below the lower bound of a key has a smaller key, and one from it on has not. -/
theorem lt_lowerBound_iff (ascending : items.Pairwise fun a b => key a ≤ key b) {i : Nat}
    (h : i < items.length) :
    i < (items.map key).countP (· < target) ↔ key items[i] < target := by
  have hlt := lt_countP_lt_iff (List.pairwise_map.mpr ascending) target (i := i) (by simpa using h)
  rwa [List.getElem_map] at hlt

/-- An item below the upper bound of a key has no greater key, and one from it on has. -/
theorem lt_upperBound_iff (ascending : items.Pairwise fun a b => key a ≤ key b) {i : Nat}
    (h : i < items.length) :
    i < (items.map key).countP (¬ target < ·) ↔ ¬ target < key items[i] := by
  have hlt := lt_countP_not_lt_iff (List.pairwise_map.mpr ascending) target (i := i)
    (by simpa using h)
  rwa [List.getElem_map] at hlt

variable [DecidableEq K]

/-- In items that ascend by their keys, those with one key stand together, between the bounds of
that key. -/
theorem drop_take_eq_filter (ascending : items.Pairwise fun a b => key a ≤ key b) :
    (items.drop ((items.map key).countP (· < target))).take
        ((items.map key).countP (¬ target < ·) - (items.map key).countP (· < target)) =
      items.filter (key · = target) := by
  have hlower := fun i (h : i < items.length) => lt_lowerBound_iff key target ascending h
  have hupper := fun i (h : i < items.length) => lt_upperBound_iff key target ascending h
  generalize (items.map key).countP (· < target) = start at hlower ⊢
  generalize (items.map key).countP (¬ target < ·) = stop at hupper ⊢
  -- Of the parts before, between and behind the bounds, only that in the middle has the key.
  have hbelow : (items.take start).filter (key · = target) = [] := by
    rw [List.filter_eq_nil_iff]
    intro a ha heq
    obtain ⟨i, hi, rfl⟩ := List.mem_take_iff_getElem.mp ha
    have hlt := (hlower i (by omega)).mp (by omega)
    exact Std.lt_irrefl (of_decide_eq_true heq ▸ hlt)
  have hwindow : ((items.drop start).take (stop - start)).filter (key · = target) =
      (items.drop start).take (stop - start) := by
    rw [List.filter_eq_self]
    intro a ha
    obtain ⟨i, hi, rfl⟩ := List.mem_take_iff_getElem.mp ha
    rw [List.length_drop] at hi
    rw [List.getElem_drop, decide_eq_true_iff]
    refine Std.le_antisymm (Std.not_lt.mp ?_) (Std.not_lt.mp ?_)
    · exact (hupper _ (by omega)).mp (by omega)
    · exact mt (hlower _ (by omega)).mpr (by omega)
  have habove : ((items.drop start).drop (stop - start)).filter (key · = target) = [] := by
    rw [List.filter_eq_nil_iff]
    intro a ha heq
    obtain ⟨i, hi, rfl⟩ := List.getElem_of_mem ha
    rw [List.length_drop, List.length_drop] at hi
    rw [List.getElem_drop, List.getElem_drop, decide_eq_true_iff] at heq
    have hnot := mt (hupper (start + (stop - start + i)) (by omega)).mpr (by omega)
    exact hnot fun hlt => Std.lt_irrefl (heq ▸ hlt)
  calc (items.drop start).take (stop - start)
      = (items.take start).filter (key · = target) ++
          (((items.drop start).take (stop - start)).filter (key · = target) ++
            ((items.drop start).drop (stop - start)).filter (key · = target)) := by
        rw [hbelow, hwindow, habove, List.nil_append, List.append_nil]
    _ = items.filter (key · = target) := by
        rw [← List.filter_append, List.take_append_drop, ← List.filter_append,
          List.take_append_drop]

end items

end PosDictionary.Search
