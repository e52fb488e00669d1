import Mathlib.Data.Nat.Log
import PosDictionary.Proofs.Outcomes
import PosDictionary.Proofs.Search

/-!
# The course of a search

A search for a partition point asks the position in the middle of what is left, again and again:
`probes` are these positions. Which ones they are depends on the answers, and these may be any:
nothing is assumed about their order here. In each course, `Course`,

* the search ends where the answers turn, and has asked the positions on both sides of that place;
* no position is asked twice, and none that is not among the positions;
* there are at most as many of them as the number of positions has binary digits.

The search computes in checked numbers and fails on one that does not fit its words. That it ends
at all says that none does: no number that comes up exceeds the number of positions, and with wider
words the search takes the very same course, `narrow_congr`.

The searches for a key consist of such searches, and so they stay among the positions whatever the
order of the keys, `searches_stay_inside`.
-/

namespace PosDictionary.Search

open Outcome

/-! ## The positions that are asked -/

/-- The positions that a search with the positions `lo..hi` left asks, when it is told `answer`, in
their order. -/
def probes (answer : Nat → Bool) (lo hi : Nat) : List Nat :=
  if _h : lo < hi then
    let mid := lo + (hi - lo) / 2
    mid :: if answer mid then probes answer (mid + 1) hi else probes answer lo mid
  else
    []
termination_by hi - lo

variable {answer : Nat → Bool} {limit lo hi : Nat}

/-- First the position in the middle is asked, then those on the side that its answer leaves. -/
theorem probes_of_lt (h : lo < hi) :
    probes answer lo hi = (lo + (hi - lo) / 2) ::
      if answer (lo + (hi - lo) / 2) then probes answer (lo + (hi - lo) / 2 + 1) hi
      else probes answer lo (lo + (hi - lo) / 2) := by
  rw [probes, dif_pos h]

/-- An empty window is not probed. -/
theorem probes_of_ge (h : hi ≤ lo) : probes answer lo hi = [] := by
  rw [probes, dif_neg (Nat.not_lt.mpr h)]

/-- Only positions that are left are asked. -/
theorem within_of_mem_probes {i : Nat} (h : i ∈ probes answer lo hi) : lo ≤ i ∧ i < hi := by
  induction lo, hi using window_induction with
  | round lo hi hlt ihRight ihLeft =>
    rw [probes_of_lt hlt, List.mem_cons] at h
    rcases h with rfl | h
    · omega
    · split at h
      · have := ihRight h
        omega
      · have := ihLeft h
        omega
  | done lo hi hge =>
    rw [probes_of_ge hge] at h
    cases h

/-- What is left after a round does not contain the position that was asked. -/
theorem nodup_probes (answer : Nat → Bool) (lo hi : Nat) : (probes answer lo hi).Nodup := by
  induction lo, hi using window_induction with
  | round lo hi hlt ihRight ihLeft =>
    rw [probes_of_lt hlt]
    split
    · refine List.nodup_cons.mpr ⟨fun hmem => ?_, ihRight⟩
      exact Nat.not_succ_le_self _ (within_of_mem_probes hmem).1
    · refine List.nodup_cons.mpr ⟨fun hmem => ?_, ihLeft⟩
      exact Nat.lt_irrefl _ (within_of_mem_probes hmem).2
  | done lo hi hge =>
    rw [probes_of_ge hge]
    exact List.nodup_nil

/-- Half of the positions have one binary digit less. -/
theorem log_add_one_le_of_le_half {n half : Nat} (hpos : 0 < half) (hle : half ≤ n / 2) :
    Nat.log 2 half + 1 ≤ Nat.log 2 n := by
  rw [Nat.log_of_one_lt_of_le Nat.one_lt_two (by omega : 2 ≤ n)]
  exact Nat.succ_le_succ (Nat.log_mono_right hle)

/-- At most as many positions are asked as their number has binary digits, since each round leaves
at most half of them. -/
theorem length_probes_le (answer : Nat → Bool) (h : lo < hi) :
    (probes answer lo hi).length ≤ Nat.log 2 (hi - lo) + 1 := by
  induction lo, hi using window_induction with
  | round lo hi hlt ihRight ihLeft =>
    rw [probes_of_lt hlt, List.length_cons]
    apply Nat.succ_le_succ
    generalize hmid : lo + (hi - lo) / 2 = mid at *
    split
    · rcases Nat.lt_or_ge (mid + 1) hi with hright | hnone
      · exact (ihRight hright).trans (log_add_one_le_of_le_half (by omega) (by omega))
      · rw [probes_of_ge hnone]
        exact Nat.zero_le _
    · rcases Nat.lt_or_ge lo mid with hleft | hnone
      · exact (ihLeft hleft).trans (log_add_one_le_of_le_half (by omega) (by omega))
      · rw [probes_of_ge hnone]
        exact Nat.zero_le _
  | done lo hi hge => exact absurd h (Nat.not_lt.mpr hge)

/-! ## Where the search ends -/

/-- A search that is told its answers goes on with the side that the answer leaves. -/
theorem narrow_told_of_lt (h : lo < hi) (fits : hi ≤ limit) :
    narrow limit (told answer) lo hi =
      if answer (lo + (hi - lo) / 2) then narrow limit (told answer) (lo + (hi - lo) / 2 + 1) hi
      else narrow limit (told answer) lo (lo + (hi - lo) / 2) :=
  narrow_of_lt (told answer) h fits

/-- A window that fits is narrowed without a fault, whatever the answers are. -/
theorem exists_narrow_told (answer : Nat → Bool) (h : lo ≤ hi) (fits : hi ≤ limit) :
    ∃ cut, narrow limit (told answer) lo hi = .ok cut ∧ TurnsAt answer lo hi cut :=
  exists_narrow (fun _ _ _ => rfl) h fits

/-- The search asks the positions on both sides of the place where it ends. -/
theorem turn_mem_probes {cut : Nat} (h : lo ≤ hi) (fits : hi ≤ limit)
    (hcut : narrow limit (told answer) lo hi = .ok cut) :
    (lo < cut → cut - 1 ∈ probes answer lo hi) ∧ (cut < hi → cut ∈ probes answer lo hi) := by
  induction lo, hi using window_induction with
  | round lo hi hlt ihRight ihLeft =>
    rw [narrow_told_of_lt hlt fits] at hcut
    rw [probes_of_lt hlt]
    have hmid : lo ≤ lo + (hi - lo) / 2 ∧ lo + (hi - lo) / 2 + 1 ≤ hi := by omega
    generalize lo + (hi - lo) / 2 = mid at *
    -- The search goes on in one half. Where it ends at the border to the other, that is `mid`.
    split at hcut
    next hyes =>
      rw [if_pos hyes]
      obtain ⟨hpred, hself⟩ := ihRight hmid.2 fits hcut
      obtain ⟨cut', hcut', turns⟩ := exists_narrow_told answer hmid.2 fits
      obtain rfl := Except.ok.inj (hcut.symm.trans hcut')
      refine ⟨fun _ => ?_, fun hin => List.mem_cons_of_mem _ (hself hin)⟩
      rcases Nat.lt_or_eq_of_le turns.above with hlt | rfl
      · exact List.mem_cons_of_mem _ (hpred hlt)
      · exact List.mem_cons_self
    next hno =>
      rw [if_neg hno]
      have fits' : mid ≤ limit := by omega
      obtain ⟨hpred, hself⟩ := ihLeft hmid.1 fits' hcut
      obtain ⟨cut', hcut', turns⟩ := exists_narrow_told answer hmid.1 fits'
      obtain rfl := Except.ok.inj (hcut.symm.trans hcut')
      refine ⟨fun hin => List.mem_cons_of_mem _ (hpred hin), fun _ => ?_⟩
      rcases Nat.lt_or_eq_of_le turns.below with hlt | rfl
      · exact List.mem_cons_of_mem _ (hself hlt)
      · exact List.mem_cons_self
  | done lo hi hge =>
    rw [narrow_of_ge _ hge] at hcut
    obtain rfl := Except.ok.inj hcut
    omega

/-! ## Searches that remember what they ask -/

/-- What a question does to the trace: it remembers a place and is answered. -/
def remember {α : Type} (place : Nat) (answer : α) : StateT (Array Nat) (Except Fault) α := do
  modify (·.push place)
  return answer

/-- Recording an answer that is told remembers the place. -/
theorem recorded_told {α : Type} (answer : Nat → α) (i : Nat) :
    recorded (told answer) i = remember i (answer i) :=
  rfl

/-- A search whose question remembers the `place` of each position that is asked ends where a search
does that is told the answers, and remembers the places of the positions that it asks, in their
order. -/
theorem run_narrow {ask : Nat → StateT (Array Nat) (Except Fault) Bool} {place : Nat → Nat}
    {cut : Nat} (asked : ∀ i, lo ≤ i → i < hi → ask i = remember (place i) (answer i))
    (fits : hi ≤ limit) (hcut : narrow limit (told answer) lo hi = .ok cut) (trace : Array Nat) :
    (narrow limit ask lo hi).run trace =
      .ok (cut, trace ++ (probes answer lo hi).map place) := by
  induction lo, hi using window_induction generalizing trace with
  | round lo hi hlt ihRight ihLeft =>
    have hmid : lo ≤ lo + (hi - lo) / 2 ∧ lo + (hi - lo) / 2 < hi := by omega
    rw [narrow_told_of_lt hlt fits] at hcut
    rw [narrow_of_lt _ hlt fits, probes_of_lt hlt, asked _ hmid.1 hmid.2]
    generalize lo + (hi - lo) / 2 = mid at *
    show (StateT.run (if answer mid then _ else _) (trace.push (place mid))) = _
    split at hcut
    next hyes =>
      rw [if_pos hyes, if_pos hyes, ihRight (fun i h₁ h₂ => asked i (by omega) h₂) fits hcut]
      simp
    next hno =>
      rw [if_neg hno, if_neg hno,
        ihLeft (fun i h₁ h₂ => asked i h₁ (by omega)) (by omega) hcut]
      simp
  | done lo hi hge =>
    rw [narrow_of_ge _ hge] at hcut ⊢
    obtain rfl := Except.ok.inj hcut
    rw [probes_of_ge hge]
    simp

/-- How a search over the positions below `len` runs that is told `answer`: where it ends and which
positions it asks, in their order. -/
structure Course (answer : Nat → Bool) (len cut : Nat) (asked : List Nat) : Prop where
  /-- The search ends at `cut`. -/
  partitionPoint_eq : partitionPoint len (told answer) = .ok cut
  /-- The answers turn there. -/
  turns : TurnsAt answer 0 len cut
  /-- Only positions are asked. -/
  lt_len : ∀ i ∈ asked, i < len
  /-- None of them is asked twice. -/
  nodup : asked.Nodup
  /-- There are not more of them than `len` has binary digits. -/
  length_le : asked.length ≤ if len = 0 then 0 else Nat.log 2 len + 1
  /-- The position before the end is asked, if there is one. -/
  pred_mem : 0 < cut → cut - 1 ∈ asked
  /-- The position at the end is asked, if there is one. -/
  mem : cut < len → cut ∈ asked

/-- Every search takes its course. -/
theorem exists_course (answer : Nat → Bool) (len : Nat) :
    ∃ cut, Course answer len cut (probes answer 0 len) := by
  obtain ⟨cut, hcut, turns⟩ := exists_narrow_told answer (Nat.zero_le len) (Nat.le_refl len)
  obtain ⟨hpred, hself⟩ := turn_mem_probes (Nat.zero_le len) (Nat.le_refl len) hcut
  refine ⟨cut, hcut, turns, fun i hi => (within_of_mem_probes hi).2, nodup_probes answer 0 len, ?_,
    hpred, hself⟩
  split
  next hzero => rw [probes_of_ge (Nat.le_of_eq hzero), List.length_nil]
  next hpos => exact length_probes_le answer (Nat.pos_of_ne_zero hpos)

/-! ## Searches for a key -/

section keys

variable {K : Type} [LT K] [DecidableLT K] {len start count : Nat} {key : Nat → K} {target : K}

/-- The positions at which a search for the lower bound of a target reads the key. -/
abbrev lowerProbes (len : Nat) (key : Nat → K) (target : K) : List Nat :=
  probes (fun i => decide (key i < target)) 0 len

/-- The positions, counted from `start`, at which a search for the upper bound of a target reads the
key when it begins at `start`. -/
abbrev upperProbes (len : Nat) (key : Nat → K) (target : K) (start : Nat) : List Nat :=
  (probes (fun i => decide (¬ target < key (start + i))) 0 (len - start)).map (start + ·)

/-- What the search for the lower bound asks. -/
theorem run_lowerBound (hstart : lowerBound len target (told key) = .ok start)
    (trace : Array Nat) :
    (lowerBound len target (recorded (told key))).run trace =
      .ok (start, trace ++ lowerProbes len key target) := by
  have hrun : (lowerBound len target (recorded (told key))).run trace =
      .ok (start, trace ++ (lowerProbes len key target).map id) :=
    run_narrow (fun i _ _ => rfl) (Nat.le_refl len) hstart trace
  rwa [List.map_id] at hrun

omit [LT K] [DecidableLT K] in
/-- Behind `start`, the key is read at the sum of the two places. -/
theorem keyBehind_recorded {i : Nat} (hi : i < len - start) :
    keyBehind len start (recorded (told key)) i = remember (start + i) (key (start + i)) := by
  rw [keyBehind, checkedAdd_eq (by omega)]
  rfl

/-- What the search for the upper bound asks, behind the lower one. -/
theorem run_upperBound
    (hcount : upperBound (len - start) target (told fun i => key (start + i)) = .ok count)
    (trace : Array Nat) :
    (upperBound (len - start) target (keyBehind len start (recorded (told key)))).run trace =
      .ok (count, trace ++ upperProbes len key target start) := by
  refine run_narrow (fun i _ hi => ?_) (Nat.le_refl (len - start)) hcount trace
  rw [keyBehind_recorded hi]
  rfl

/-- A search for the span of a target makes both searches, the second from where the first ends. -/
theorem run_equalRange (hstart : lowerBound len target (told key) = .ok start)
    (hcount : upperBound (len - start) target (told fun i => key (start + i)) = .ok count)
    (inside : start + count ≤ len) (trace : Array Nat) :
    (equalRange len target (recorded (told key))).run trace =
      .ok (⟨start, start + count⟩,
        trace ++ lowerProbes len key target ++ upperProbes len key target start) := by
  have hle : start ≤ len := Nat.le_trans (Nat.le_add_right start count) inside
  rw [equalRange, StateT.run_bind, run_lowerBound hstart, ok_bind, checkedSub_eq hle]
  simp only [liftExcept_ok, pure_bind]
  rw [StateT.run_bind, run_upperBound hcount, ok_bind, checkedAdd_eq inside]
  rfl

variable (len key target)

/-- The search for the lower bound ends inside. -/
theorem exists_lowerBound : ∃ start, lowerBound len target (told key) = .ok start ∧ start ≤ len := by
  obtain ⟨start, hstart, turns⟩ := exists_narrow_told (fun i => decide (key i < target))
    (Nat.zero_le len) (Nat.le_refl len)
  exact ⟨start, hstart, turns.below⟩

/-- Whatever the order of the keys, the span of a target lies among the positions. It is found by
two searches, and both read the key at positions only. -/
theorem exists_equalRange_recorded :
    ∃ span asked, equalRange len target (told key) = .ok span ∧
      (equalRange len target (recorded (told key))).run #[] = .ok (span, asked) ∧
      span.start ≤ span.stop ∧ span.stop ≤ len ∧ ∀ i ∈ asked, i < len := by
  obtain ⟨start, hstart, hle⟩ := exists_lowerBound len key target
  obtain ⟨count, hcount, turns⟩ := exists_narrow_told
    (fun i => decide (¬ target < key (start + i))) (Nat.zero_le (len - start)) (Nat.le_refl _)
  have hbelow := turns.below
  have inside : start + count ≤ len := by omega
  have htold : upperBound (len - start) target (keyBehind len start (told key)) = .ok count := by
    refine (narrow_congr (fun i _ hi => ?_) (Nat.le_refl _) (Nat.le_refl _)).trans hcount
    rw [keyBehind, checkedAdd_eq (by omega)]
    rfl
  refine ⟨_, _, equalRange_of_bounds hstart htold inside, run_equalRange hstart hcount inside #[],
    Nat.le_add_right start count, inside, fun i hi => ?_⟩
  rcases (by simpa using hi : i ∈ lowerProbes len key target ∨ i ∈ upperProbes len key target start)
    with hlower | hupper
  · exact (within_of_mem_probes hlower).2
  · obtain ⟨j, hj, rfl⟩ := List.mem_map.mp hupper
    have := (within_of_mem_probes hj).2
    omega

/-- A position that is found is one, and has the target as its key; the key is read at positions
only. -/
theorem exists_find_recorded [DecidableEq K] :
    ∃ found asked, find len target (told key) = .ok found ∧
      (find len target (recorded (told key))).run #[] = .ok (found, asked) ∧
      (∀ i ∈ asked, i < len) ∧ ∀ p, found = some p → p < len ∧ key p = target := by
  obtain ⟨start, hstart, -⟩ := exists_lowerBound len key target
  have hrun := run_lowerBound hstart #[]
  have hinside : ∀ i ∈ (#[] : Array Nat) ++ lowerProbes len key target, i < len := by
    intro i hi
    have hprobe : i ∈ lowerProbes len key target := by simpa using hi
    exact (within_of_mem_probes hprobe).2
  unfold find
  rw [hstart, StateT.run_bind, hrun]
  generalize (#[] : Array Nat) ++ lowerProbes len key target = asked at hinside
  by_cases hlt : start < len
  · refine ⟨if key start = target then some start else none, asked.push start, ?_, ?_, ?_, ?_⟩
    · show (if start < len then _ else _) = _
      rw [if_pos hlt]
      rfl
    · show StateT.run (if start < len then _ else _) asked = _
      rw [if_pos hlt]
      rfl
    · intro i hi
      rcases Array.mem_push.mp hi with hi | rfl
      · exact hinside i hi
      · exact hlt
    · intro p hp
      split at hp
      next hkey => exact Option.some_inj.mp hp ▸ ⟨hlt, hkey⟩
      next => cases hp
  · refine ⟨none, asked, ?_, ?_, hinside, fun p hp => by cases hp⟩
    · show (if start < len then _ else _) = _
      rw [if_neg hlt]
      rfl
    · show StateT.run (if start < len then _ else _) asked = _
      rw [if_neg hlt]
      rfl

end keys

/-- **Searches stay among their positions.** Whatever is asked and whatever the answers are, a search
for a partition point ends where they turn and asks each position at most once, in a course that is
not longer than the number of positions has binary digits. It computes in numbers up to the number
of positions, and a greater one would be a fault; so it takes the same course in all words that hold
that number, whatever else they hold. The searches for a key read it at positions only, whatever the
order of the keys: the span that is found lies among the positions, and a position that is found has
the key. -/
theorem searches_stay_inside :
    (∀ (len : Nat) (answer : Nat → Bool), ∃ cut asked,
      (partitionPoint len (recorded (told answer))).run #[] = .ok (cut, asked) ∧
        Course answer len cut asked.toList ∧
        ∀ limit, len ≤ limit →
          (narrow limit (recorded (told answer)) 0 len).run #[] = .ok (cut, asked)) ∧
    ∀ {K : Type} [LT K] [DecidableLT K] [DecidableEq K] (len : Nat) (key : Nat → K) (target : K),
      (∃ span asked, equalRange len target (told key) = .ok span ∧
        (equalRange len target (recorded (told key))).run #[] = .ok (span, asked) ∧
        span.start ≤ span.stop ∧ span.stop ≤ len ∧ ∀ i ∈ asked, i < len) ∧
      ∃ found asked, find len target (told key) = .ok found ∧
        (find len target (recorded (told key))).run #[] = .ok (found, asked) ∧
        (∀ i ∈ asked, i < len) ∧ ∀ p, found = some p → p < len ∧ key p = target := by
  refine ⟨fun len answer => ?_, fun len key target =>
    ⟨exists_equalRange_recorded len key target, exists_find_recorded len key target⟩⟩
  obtain ⟨cut, course⟩ := exists_course answer len
  have hrun : (partitionPoint len (recorded (told answer))).run #[] =
      .ok (cut, #[] ++ (probes answer 0 len).map id) :=
    run_narrow (fun i _ _ => recorded_told answer i) (Nat.le_refl len) course.partitionPoint_eq #[]
  rw [List.map_id] at hrun
  refine ⟨cut, #[] ++ probes answer 0 len, hrun, ?_, fun limit fits => ?_⟩
  · rw [Array.toList_appendList]
    exact course
  · rw [narrow_congr (fun _ _ _ => rfl) fits (Nat.le_refl len)]
    exact hrun

/-- Three keys in no order. -/
def unorderedKeys (i : Nat) : Nat := [1, 3, 2].getD i 0

/-- Keys that are in no order, so that the search may miss one and still stays inside. -/
theorem searches_stay_inside_unorderedKeys :
    (∃ cut asked, (partitionPoint 3 (recorded (told fun i => unorderedKeys i == 2))).run #[] =
        .ok (cut, asked) ∧ Course (fun i => unorderedKeys i == 2) 3 cut asked.toList ∧
        (narrow (UInt64.size - 1) (recorded (told fun i => unorderedKeys i == 2)) 0 3).run #[] =
          .ok (cut, asked)) ∧
      ∃ asked, (find 3 3 (recorded (told unorderedKeys))).run #[] = .ok (some 1, asked) ∧
        (∀ i ∈ asked, i < 3) ∧ unorderedKeys 1 = 3 := by
  obtain ⟨hquestion, hkeys⟩ := searches_stay_inside
  obtain ⟨cut, asked, hrun, course, hwide⟩ := hquestion 3 fun i => unorderedKeys i == 2
  obtain ⟨-, found, seen, hfound, hseen, hinside, hkey⟩ := hkeys 3 unorderedKeys 3
  have hthree : find 3 3 (told unorderedKeys) = .ok (some 1) := by cbv
  obtain rfl := Except.ok.inj (hthree.symm.trans hfound)
  exact ⟨⟨cut, asked, hrun, course, hwide _ (by decide)⟩, seen, hseen, hinside, (hkey 1 rfl).2⟩

end PosDictionary.Search
