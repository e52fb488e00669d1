import Mathlib.Data.List.Destutter
import PosDictionary.Proofs.Cursors.Scripts
import PosDictionary.Proofs.PosIndex.DistinctIds

/-!
# Reading ids by runs

In a list of ids, a run begins at each place where the id differs from the one before it. Whoever
gives one id of each run stops behind the place where the run begins, which is in the middle of the
run where the run goes on. This is all that has to be remembered: a reader of runs is at a place of
the list, and `step` says what it answers there and where it goes. The hint is the number of ids
from the place on, not that of the runs.

* `idsFrom_zero` : the ids that are given are the list without the ids that equal the one before
  them;
* `run_eq_reading` : without hints, a script is answered from these as from a list;
* `exists_passed` : what a script gives and what it leaves are parts of them;
* `placeAfter_of_exhausted` : where one was missed, no more are given.
-/

namespace PosDictionary.IdRuns

/-! ## Places where runs begin -/

variable (ids : List UInt16)

/-- The id before place `q`, if there is one. -/
def before : Nat → Option UInt16
  | 0 => none
  | q + 1 => ids[q]?

/-- A run of equal ids begins at place `i`. -/
def IsHead (i : Nat) : Prop := before ids i ≠ ids[i]?

instance : DecidablePred (IsHead ids) :=
  fun i => inferInstanceAs (Decidable (before ids i ≠ ids[i]?))

/-- The places from `q` on at which runs begin. -/
def headsFrom (q : Nat) : List Nat := (List.range' q (ids.length - q)).filter (IsHead ids)

/-- The ids of the runs that begin from place `q` on. -/
def idsFrom (q : Nat) : List UInt16 := (headsFrom ids q).filterMap (ids[·]?)

/-- Reads from place `q` to behind the next place at which a run begins, or to the end. -/
def next (q : Nat) : Option UInt16 × Nat :=
  match headsFrom ids q with
  | [] => (none, ids.length)
  | p :: _ => (ids[p]?, p + 1)

/-- Reads on `n` times before it gives an answer. -/
def nth : Nat → Nat → Option UInt16 × Nat
  | 0, q => next ids q
  | n + 1, q => nth n (next ids q).2

/-- Carries out a request at place `q`. -/
def step (q : Nat) : Request → Answer UInt16 × Nat
  | .next => let (id, q) := next ids q; (.item id, q)
  | .nth n => let (id, q) := nth ids n q; (.item id, q)
  | .hint => (.hint 0 (ids.length - q), q)
  | .rest => (.items (idsFrom ids q), ids.length)
  | .preview => (.items (idsFrom ids q), q)

/-- The answers to a script, in order. -/
def run (q : Nat) : List Request → List (Answer UInt16)
  | [] => []
  | request :: script => (step ids q request).1 :: run (step ids q request).2 script

/-- The place to which a script leads. -/
def placeAfter (q : Nat) : List Request → Nat
  | [] => q
  | request :: script => placeAfter (step ids q request).2 script

variable {ids} {q : Nat}

/-! ## The ids of runs -/

/-- Behind the last id no run begins. -/
theorem headsFrom_of_le (h : ids.length ≤ q) : headsFrom ids q = [] := by
  unfold headsFrom
  rw [Nat.sub_eq_zero_of_le h]
  rfl

/-- The runs from a place on begin there, if one does, and behind it. -/
theorem headsFrom_of_lt (h : q < ids.length) : headsFrom ids q =
    if IsHead ids q then q :: headsFrom ids (q + 1) else headsFrom ids (q + 1) := by
  have hcount : ids.length - q = ids.length - (q + 1) + 1 := by omega
  unfold headsFrom
  rw [hcount, List.range'_succ, List.filter_cons]
  simp only [decide_eq_true_eq]

/-- Where all ids were read, no runs are left. -/
theorem headsFrom_length (ids : List UInt16) : headsFrom ids ids.length = [] :=
  headsFrom_of_le (Nat.le_refl _)

/-- Behind the last id there is none to give. -/
theorem idsFrom_length (ids : List UInt16) : idsFrom ids ids.length = [] := by
  rw [idsFrom, headsFrom_length]
  rfl

/-- There are no more runs than records left. -/
theorem length_idsFrom_le (ids : List UInt16) (q : Nat) :
    (idsFrom ids q).length ≤ ids.length - q :=
  calc (idsFrom ids q).length
    _ ≤ (headsFrom ids q).length := List.length_filterMap_le _ _
    _ ≤ (List.range' q (ids.length - q)).length := List.length_filter_le _ _
    _ = ids.length - q := List.length_range'

/-- Behind a place at which a run begins, the others follow. -/
theorem headsFrom_eq_cons {p : Nat} {rest : List Nat} (h : headsFrom ids q = p :: rest) :
    p < ids.length ∧ rest = headsFrom ids (p + 1) := by
  induction hn : ids.length - q generalizing q with
  | zero =>
    rw [headsFrom_of_le (by omega)] at h
    cases h
  | succ n ih =>
    rw [headsFrom_of_lt (by omega)] at h
    split at h
    · obtain ⟨rfl, rfl⟩ := List.cons.inj h
      exact ⟨by omega, rfl⟩
    · exact ih h (by omega)

/-- The ids of the runs are those that are left when each run is collapsed. -/
theorem idsFrom_eq_collapse (ids : List UInt16) (q : Nat) :
    idsFrom ids q = DistinctIds.collapse (before ids q) (ids.drop q) := by
  induction hn : ids.length - q generalizing q with
  | zero =>
    have hq : ids.length ≤ q := by omega
    rw [idsFrom, headsFrom_of_le hq, List.drop_eq_nil_of_le hq]
    rfl
  | succ n ih =>
    have hq : q < ids.length := by omega
    have hget : ids[q]? = some ids[q] := List.getElem?_eq_getElem hq
    have hhead : IsHead ids q ↔ before ids q ≠ some ids[q] := by rw [IsHead, hget]
    have hnext := ih (q + 1) (by omega)
    rw [before, hget] at hnext
    rw [idsFrom, headsFrom_of_lt hq, List.drop_eq_getElem_cons hq, DistinctIds.collapse]
    by_cases hsame : before ids q = some ids[q]
    · rw [if_neg fun h => hhead.mp h hsame, if_pos hsame, hsame, ← hnext, idsFrom]
    · rw [if_pos (hhead.mpr hsame), if_neg hsame, ← hnext, List.filterMap_cons_some hget, idsFrom]

/-- Collapsing behind an id is removing repetitions. -/
theorem collapse_some_eq_destutter' (id : UInt16) (ids : List UInt16) :
    id :: DistinctIds.collapse (some id) ids = ids.destutter' (· ≠ ·) id := by
  induction ids generalizing id with
  | nil => rfl
  | cons first ids ih =>
    rw [DistinctIds.collapse, List.destutter'_cons]
    by_cases heq : id = first
    · rw [if_pos (congrArg some heq), if_neg (not_not.mpr heq), ih]
    · rw [if_neg (mt Option.some_inj.mp heq), if_pos heq, ih]

/-- From the first place on, these are the ids without those that equal the one before them. -/
theorem idsFrom_zero (ids : List UInt16) : idsFrom ids 0 = ids.destutter (· ≠ ·) := by
  rw [idsFrom_eq_collapse, List.drop_zero, before]
  cases ids with
  | nil => rfl
  | cons first ids => exact collapse_some_eq_destutter' first ids

/-! ## Reading on -/

/-- A place inside a run is passed over. -/
theorem next_of_not_isHead (h : q < ids.length) (hhead : ¬ IsHead ids q) :
    next ids q = next ids (q + 1) := by
  rw [next, headsFrom_of_lt h, if_neg hhead, ← next]

/-- The first id of a run is given. -/
theorem next_of_isHead (h : q < ids.length) (hhead : IsHead ids q) :
    next ids q = (ids[q]?, q + 1) := by
  rw [next, headsFrom_of_lt h, if_pos hhead]

/-- The next id is the first of those that are left, and the others are left behind it. -/
theorem takeFirst_idsFrom (ids : List UInt16) (q : Nat) :
    Reading.takeFirst (idsFrom ids q) = ((next ids q).1, idsFrom ids (next ids q).2) := by
  unfold idsFrom next
  cases h : headsFrom ids q with
  | nil => rw [headsFrom_length]; rfl
  | cons p rest =>
    obtain ⟨hp, rfl⟩ := headsFrom_eq_cons h
    have hget : ids[p]? = some ids[p] := List.getElem?_eq_getElem hp
    rw [List.filterMap_cons_some hget]
    exact congrArg (·, idsFrom ids (p + 1)) hget.symm

/-- Taking ids from the list of those left is moving the place. -/
theorem takeAfter_idsFrom (n : Nat) (ids : List UInt16) (q : Nat) :
    Reading.takeAfter Reading.takeFirst n (idsFrom ids q) =
      ((nth ids n q).1, idsFrom ids (nth ids n q).2) := by
  induction n generalizing q with
  | zero => exact takeFirst_idsFrom ids q
  | succ n ih => rw [Reading.takeAfter, takeFirst_idsFrom, ih, nth]

/-- Behind the last id none is given. -/
theorem next_length (ids : List UInt16) : next ids ids.length = (none, ids.length) := by
  rw [next, headsFrom_length]

/-- Behind the last id none is given, however many are passed over. -/
theorem nth_length (n : Nat) (ids : List UInt16) : nth ids n ids.length = (none, ids.length) := by
  induction n with
  | zero => exact next_length ids
  | succ n ih => rw [nth, next_length, ih]

/-- No id is given only where all ids were read. -/
theorem snd_next_of_fst_eq_none (h : (next ids q).1 = none) : (next ids q).2 = ids.length := by
  unfold next at h ⊢
  cases hheads : headsFrom ids q with
  | nil => rfl
  | cons p rest =>
    rw [hheads] at h
    exact absurd (headsFrom_eq_cons hheads).1 (Nat.not_lt.mpr (List.getElem?_eq_none_iff.mp h))

/-- Once no id is given, all records have been read. -/
theorem snd_nth_of_fst_eq_none {n : Nat} (h : (nth ids n q).1 = none) :
    (nth ids n q).2 = ids.length := by
  induction n generalizing q with
  | zero => exact snd_next_of_fst_eq_none h
  | succ n ih => exact ih h

/-! ## Scripts -/

/-- A script goes on where the one before has left off. -/
theorem run_append (q : Nat) (script more : List Request) :
    run ids q (script ++ more) = run ids q script ++ run ids (placeAfter ids q script) more := by
  induction script generalizing q with
  | nil => rfl
  | cons request script ih => simp [run, placeAfter, ih]

/-- Every request is answered. -/
theorem length_run (q : Nat) (script : List Request) :
    (run ids q script).length = script.length := by
  induction script generalizing q with
  | nil => rfl
  | cons request script ih => simp [run, ih]

/-- A request other than a hint is answered from the ids of the runs, and leaves the same of
them. -/
theorem step_eq_reading {request : Request} (h : request ≠ .hint) :
    Reading.step (idsFrom ids q) (.forward request) =
      ((step ids q request).1, idsFrom ids (step ids q request).2) := by
  cases request with
  | next => simp only [Reading.step, takeFirst_idsFrom, step]
  | nth n => simp only [Reading.step, takeAfter_idsFrom, step]
  | hint => exact absurd rfl h
  | rest => simp only [Reading.step, step, idsFrom_length]
  | preview => rfl

/-- Without hints, no script tells the runs from the list of their ids. -/
theorem run_eq_reading {script : List Request} (h : .hint ∉ script) :
    run ids q script = Reading.run (idsFrom ids q) (script.map .forward) := by
  induction script generalizing q with
  | nil => rfl
  | cons request script ih =>
    obtain ⟨hrequest, hscript⟩ := not_or.mp (mt List.mem_cons.mpr h)
    rw [List.map_cons, Reading.run, step_eq_reading (Ne.symm hrequest), ← ih hscript, run]

/-- An id is given behind those that are passed over, and the others are left. -/
theorem exists_passed_nth (ids : List UInt16) (q n : Nat) :
    ∃ passed, idsFrom ids q = passed ++ idsFrom ids (nth ids n q).2 ∧
      (nth ids n q).1.toList.Sublist passed ∧ (n = 0 → (nth ids n q).1.toList = passed) := by
  have htake := takeAfter_idsFrom n ids q
  rw [Reading.takeAfter_takeFirst, Prod.mk.injEq] at htake
  refine ⟨(idsFrom ids q).take (n + 1), ?_, ?_, ?_⟩
  · rw [← htake.2, List.take_append_drop]
  · rw [← htake.1, List.take_add_one]
    exact List.sublist_append_right _ _
  · rintro rfl
    rw [← htake.1, List.take_add_one]
    rfl

/-- What a request gives is among the ids that it passes, and the others are left. -/
theorem exists_passed_step (ids : List UInt16) (q : Nat) (request : Request) :
    ∃ passed, idsFrom ids q = passed ++ idsFrom ids (step ids q request).2 ∧
      (Reading.givenFirst (.forward request) (step ids q request).1).Sublist passed ∧
      (Reading.Gapless (.forward request) →
        Reading.givenFirst (.forward request) (step ids q request).1 = passed) := by
  cases request with
  | next =>
    obtain ⟨passed, hpassed, hsub, hall⟩ := exists_passed_nth ids q 0
    exact ⟨passed, hpassed, hsub, fun _ => hall rfl⟩
  | nth n =>
    obtain ⟨passed, hpassed, hsub, hall⟩ := exists_passed_nth ids q n
    exact ⟨passed, hpassed, hsub, fun hgapless => hall (hgapless n rfl)⟩
  | hint => exact ⟨[], rfl, .slnil, fun _ => rfl⟩
  | rest =>
    refine ⟨idsFrom ids q, ?_, .refl _, fun _ => rfl⟩
    rw [step, idsFrom_length, List.append_nil]
  | preview => exact ⟨[], rfl, .slnil, fun _ => rfl⟩

/-- What a script gives is among the ids that it passes, in their order, and the others are
left. -/
theorem exists_passed (ids : List UInt16) (q : Nat) (script : List Request) :
    ∃ passed, idsFrom ids q = passed ++ idsFrom ids (placeAfter ids q script) ∧
      (Reading.firsts (script.map .forward) (run ids q script)).Sublist passed ∧
      ((∀ request ∈ script, Reading.Gapless (.forward request)) →
        Reading.firsts (script.map .forward) (run ids q script) = passed) := by
  induction script generalizing q with
  | nil => exact ⟨[], rfl, .slnil, fun _ => rfl⟩
  | cons request script ih =>
    obtain ⟨first, hfirst, hsub, heq⟩ := exists_passed_step ids q request
    obtain ⟨others, hothers, hsub', heq'⟩ := ih (step ids q request).2
    refine ⟨first ++ others, ?_, hsub.append hsub', fun hgapless => ?_⟩
    · rw [hfirst, hothers, List.append_assoc, placeAfter]
    · obtain ⟨hrequest, hscript⟩ := List.forall_mem_cons.mp hgapless
      exact congrArg₂ (· ++ ·) (heq hrequest) (heq' hscript)

/-- Where all ids were read, every request is answered as if there were none. -/
theorem step_length (ids : List UInt16) (request : Request) :
    step ids ids.length request = (Reading.answerOfNone (.forward request), ids.length) := by
  cases request with
  | next => simp only [step, next_length, Reading.answerOfNone]
  | nth n => simp only [step, nth_length, Reading.answerOfNone]
  | hint => simp only [step, Nat.sub_self, Reading.answerOfNone]
  | rest => simp only [step, idsFrom_length, Reading.answerOfNone]
  | preview => simp only [step, idsFrom_length, Reading.answerOfNone]

/-- Behind the last id every answer is that of an end. -/
theorem run_length (ids : List UInt16) (script : List Request) :
    run ids ids.length script =
      script.map fun request => Reading.answerOfNone (.forward request) := by
  induction script with
  | nil => rfl
  | cons request script ih => rw [run, step_length, ih, List.map_cons]

/-- The end is not left again. -/
theorem placeAfter_length (ids : List UInt16) (script : List Request) :
    placeAfter ids ids.length script = ids.length := by
  induction script with
  | nil => rfl
  | cons request script ih => rw [placeAfter, step_length, ih]

/-- All ids were read when one is missed, or the rest of them was taken. -/
theorem placeAfter_of_exhausted {script : List Request}
    (h : .item none ∈ run ids q script ∨ .rest ∈ script) :
    placeAfter ids q script = ids.length := by
  induction script generalizing q with
  | nil => simp [run] at h
  | cons request script ih =>
    rw [run, List.mem_cons, List.mem_cons] at h
    by_cases hnow : .item none = (step ids q request).1 ∨ .rest = request
    · have hplace : (step ids q request).2 = ids.length := by
        rcases hnow with hanswer | rfl
        · cases request with
          | next => exact snd_next_of_fst_eq_none (Answer.item.inj hanswer).symm
          | nth n => exact snd_nth_of_fst_eq_none (Answer.item.inj hanswer).symm
          | hint => cases hanswer
          | rest => cases hanswer
          | preview => cases hanswer
        · rfl
      rw [placeAfter, hplace, placeAfter_length]
    · obtain ⟨hanswer, hrequest⟩ := not_or.mp hnow
      exact ih (h.imp (·.resolve_left hanswer) (·.resolve_left hrequest))

-- In the middle of the last run no id is left, but the hint is zero only when one was missed.
example : run [7, 2, 2] 0 [.nth 1, .hint, .preview, .next, .hint] =
    [.item (some 2), .hint 0 1, .items [], .item none, .hint 0 0] := by decide

end PosDictionary.IdRuns
