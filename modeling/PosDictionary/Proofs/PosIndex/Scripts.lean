import PosDictionary.Proofs.PosIndex.IdRuns
import PosDictionary.Proofs.PosIndex.Queries
import PosDictionary.Proofs.TokenArray.Searches

/-!
# Scripts run on distinct ids

A `DistinctIds` goes through records and remembers the id that it gave last, so that it can skip the
rest of a run when it is asked for the next id. `DistinctIds.At` compares it with a reader of runs,
which is at a place of the list of the ids instead:

* `At.answer` : one request leads to the same answer and the same place on either side;
* `At.run_eq` : hence all requests of a script are answered alike;
* `distinctIds_read_runs` : the distinct ids of every token array are read in this way, and in
  sorted arrays they are the ids that occur.
-/

namespace PosDictionary

namespace DistinctIds

open IdRuns (before idsFrom placeAfter)

variable {d : DistinctIds} {ids : List UInt16} {q : Nat}

/-! ## Places -/

/-- `d` goes through `ids` and has looked at those before place `q`. -/
structure At (d : DistinctIds) (ids : List UInt16) (q : Nat) : Prop where
  /-- The place lies among the ids or behind them. -/
  place_le : q ≤ ids.length
  /-- The records that are left carry the ids from there on. -/
  map_eq : d.records.toList.map TokenRecord.posIndex = ids.drop q
  /-- The id that was given last is the one before. -/
  last_eq : d.last = before ids q

namespace At

/-- Looking at a record moves the place on by one. -/
theorem of_records_next (h : d.At ids q) {r : TokenRecord} {records : Cursor TokenRecord}
    (hnext : d.records.next = (some r, records)) :
    q < ids.length ∧ ids[q]? = some r.posIndex ∧ At ⟨records, some r.posIndex⟩ ids (q + 1) := by
  have hdrop := h.map_eq
  rw [Cursor.toList_of_next_eq_some hnext, List.map_cons] at hdrop
  have hget : ids[q]? = some r.posIndex := by
    rw [← Nat.add_zero q, ← List.getElem?_drop, ← hdrop]
    rfl
  have hlt := (List.getElem?_eq_some_iff.mp hget).1
  refine ⟨hlt, hget, hlt, ?_, hget.symm⟩
  rw [← List.drop_drop, ← hdrop]
  rfl

/-- The next id is that of the next run. -/
theorem next (h : d.At ids q) :
    d.next.1 = (IdRuns.next ids q).1 ∧ d.next.2.At ids (IdRuns.next ids q).2 := by
  fun_induction DistinctIds.next d generalizing q with
  | case1 d records hnext =>
    obtain ⟨hbefore, hafter⟩ := Cursor.toList_of_next_eq_none hnext
    have hend := h.map_eq
    rw [hbefore, List.map_nil, eq_comm, List.drop_eq_nil_iff] at hend
    obtain rfl : q = ids.length := Nat.le_antisymm h.place_le hend
    rw [IdRuns.next_length]
    refine ⟨rfl, Nat.le_refl _, ?_, h.last_eq⟩
    rw [hafter, List.drop_length]
    rfl
  | case2 d r records hnext hlast ih =>
    obtain ⟨hlt, hget, hat⟩ := h.of_records_next hnext
    have hhead : ¬ IdRuns.IsHead ids q := not_not.mpr (by rw [← h.last_eq, hlast, hget])
    rw [IdRuns.next_of_not_isHead hlt hhead]
    rw [← hlast] at hat
    exact ih hat
  | case3 d r records hnext hlast =>
    obtain ⟨hlt, hget, hat⟩ := h.of_records_next hnext
    have hhead : IdRuns.IsHead ids q := by
      rw [IdRuns.IsHead, ← h.last_eq, hget]
      exact hlast
    rw [IdRuns.next_of_isHead hlt hhead, hget]
    exact ⟨rfl, hat⟩

/-- Passing over ids keeps the iterator at its place. -/
theorem nth (h : d.At ids q) (n : Nat) :
    (d.nth n).1 = (IdRuns.nth ids n q).1 ∧ (d.nth n).2.At ids (IdRuns.nth ids n q).2 := by
  induction n generalizing d q with
  | zero => exact h.next
  | succ n ih =>
    obtain ⟨hid, hat⟩ := h.next
    rw [DistinctIds.nth, IdRuns.nth]
    rcases hnext : d.next with ⟨_ | id, rest⟩
    · -- Passing over ids ends early here, while the description goes on at the end.
      rw [hnext] at hid hat
      have hend : (IdRuns.next ids q).2 = ids.length :=
        IdRuns.snd_next_of_fst_eq_none hid.symm
      rw [hend] at hat
      rw [hend, IdRuns.nth_length]
      exact ⟨rfl, hat⟩
    · rw [hnext] at hat
      exact ih hat

/-- Collecting leaves the iterator at the end. -/
theorem collect (h : d.At ids q) (taken : Array UInt16) :
    (d.collect taken).2.At ids ids.length := by
  fun_induction DistinctIds.collect d taken generalizing q with
  | case1 d taken rest hnext =>
    obtain ⟨hid, hat⟩ := h.next
    rw [hnext] at hid hat
    rwa [IdRuns.snd_next_of_fst_eq_none hid.symm] at hat
  | case2 d taken id rest hnext ih =>
    obtain ⟨-, hat⟩ := h.next
    rw [hnext] at hat
    exact ih hat

/-- An iterator at a place has the ids from there on to give. -/
theorem toList_eq (h : d.At ids q) : d.toList = idsFrom ids q := by
  rw [DistinctIds.toList_eq, left, h.map_eq, h.last_eq, IdRuns.idsFrom_eq_collapse]

/-- An iterator at a place has the records from there on to read. -/
theorem len_records (h : d.At ids q) : d.records.len = ids.length - q := by
  rw [← Cursor.length_toList, ← List.length_map TokenRecord.posIndex, h.map_eq, List.length_drop]

/-- A request is answered from the runs, and leads to the same place. -/
theorem answer (h : d.At ids q) (request : Request) :
    (d.answer request).1 = (IdRuns.step ids q request).1 ∧
      (d.answer request).2.At ids (IdRuns.step ids q request).2 := by
  cases request with
  | next => exact ⟨congrArg Answer.item h.next.1, h.next.2⟩
  | nth n => exact ⟨congrArg Answer.item (h.nth n).1, (h.nth n).2⟩
  | hint => exact ⟨congrArg (Answer.hint 0) h.len_records, h⟩
  | rest => exact ⟨congrArg Answer.items h.toList_eq, h.collect #[]⟩
  | preview => exact ⟨congrArg Answer.items h.toList_eq, h⟩

/-- Every script is answered from the runs. -/
theorem run_eq (h : d.At ids q) (script : List Request) :
    d.run script = IdRuns.run ids q script := by
  induction script generalizing d q with
  | nil => rfl
  | cons request script ih =>
    obtain ⟨hanswer, hat⟩ := h.answer request
    rw [IdRuns.run, ← hanswer, ← ih hat]
    rfl

end At

/-! ## Distinct ids of records -/

/-- `d` reads the runs of `ids`, from the first to the last. -/
structure ReadsRuns (d : DistinctIds) (ids : List UInt16) : Prop where
  /-- The ids that it has left are those of the runs. -/
  toList_eq : d.toList = ids.destutter (· ≠ ·)
  /-- It answers as the runs do, hints included. -/
  run_eq : ∀ script, d.run script = IdRuns.run ids 0 script
  /-- Without hints, it answers as the list of the ids that it has left. -/
  run_eq_reading : ∀ script, .hint ∉ script →
    d.run script = Reading.run (ids.destutter (· ≠ ·)) (script.map .forward)
  /-- After any script, the ids of the runs are those that were passed, in which those that were
  given stand in their order, and those that are left. If none was passed over, all that were
  passed were given. The hint is the number of ids behind the place that is reached, and no more are
  left than it says. -/
  run_rest : ∀ script, ∃ passed left bound, ids.destutter (· ≠ ·) = passed ++ left ∧
    (Reading.firsts (script.map .forward) (d.run script)).Sublist passed ∧
    ((∀ request ∈ script, Reading.Gapless (.forward request)) →
      Reading.firsts (script.map .forward) (d.run script) = passed) ∧
    d.run (script ++ [.hint, .rest]) = d.run script ++ [.hint 0 bound, .items left] ∧
    bound = ids.length - placeAfter ids 0 script ∧ left.length ≤ bound
  /-- Asking for a hint or a preview does not change what follows. -/
  run_still : ∀ script request more, request = .hint ∨ request = .preview →
    d.run (script ++ request :: more) =
      d.run (script ++ [request]) ++ (d.run (script ++ more)).drop script.length
  /-- Once an id is missed or the rest is taken, nothing is given any more. -/
  run_exhausted : ∀ script more, .item none ∈ d.run script ∨ .rest ∈ script →
    d.run (script ++ more) =
      d.run script ++ more.map fun request => Reading.answerOfNone (.forward request)

/-- An iterator at the first place reads all runs. -/
theorem At.readsRuns (h : d.At ids 0) : d.ReadsRuns ids where
  toList_eq := h.toList_eq.trans (IdRuns.idsFrom_zero ids)
  run_eq := h.run_eq
  run_eq_reading script hscript := by
    rw [h.run_eq, IdRuns.run_eq_reading hscript, IdRuns.idsFrom_zero]
  run_rest script := by
    obtain ⟨passed, hpassed, hsub, hall⟩ := IdRuns.exists_passed ids 0 script
    rw [IdRuns.idsFrom_zero] at hpassed
    rw [← h.run_eq] at hsub hall
    refine ⟨passed, _, _, hpassed, hsub, hall, ?_, rfl, IdRuns.length_idsFrom_le ids _⟩
    rw [h.run_eq, h.run_eq, IdRuns.run_append]
    rfl
  run_still script request more hrequest := by
    have hstill : (IdRuns.step ids (placeAfter ids 0 script) request).2 =
        placeAfter ids 0 script := by
      rcases hrequest with rfl | rfl <;> rfl
    rw [h.run_eq, h.run_eq, h.run_eq, IdRuns.run_append, IdRuns.run_append, IdRuns.run_append,
      List.drop_left' (IdRuns.length_run 0 script), List.append_assoc]
    simp only [IdRuns.run, hstill, List.singleton_append]
  run_exhausted script more hexhausted := by
    rw [h.run_eq] at hexhausted
    rw [h.run_eq, h.run_eq, IdRuns.run_append, IdRuns.placeAfter_of_exhausted hexhausted,
      IdRuns.run_length]

/-- A new iterator is at the first place. -/
theorem at_ofRecords (records : Cursor TokenRecord) :
    (ofRecords records).At (records.toList.map TokenRecord.posIndex) 0 :=
  ⟨Nat.zero_le _, rfl, rfl⟩

end DistinctIds

/-- In records in the order of their POS, the distinct ids ascend, and are those that occur. -/
theorem PosIndex.distinctIds_of_verifySorted {x : PosIndex} {d : DistinctIds}
    (hd : x.distinctIds = .ok d) (h : x.tokens.verifySorted = .ok ()) :
    d.toList.Pairwise (· < ·) ∧
      ∀ id, id ∈ d.toList ↔ ∃ i, x.tokens.posIndexAt? i = .ok (some id) := by
  rw [distinctIds_eq] at hd
  cases hd
  rw [toList_ofRecords]
  refine ⟨pairwise_idsOf (TokenArray.pairwise_of_verifySorted h), fun id => ?_⟩
  rw [mem_idsOf]
  simp only [TokenArray.posIndexAt?_eq, Except.ok.injEq, Option.map_eq_some_iff,
    List.mem_iff_getElem?]
  constructor
  · rintro ⟨r, ⟨i, hr⟩, hid⟩
    exact ⟨i, r, hr, hid⟩
  · rintro ⟨i, r, hr, hid⟩
    exact ⟨r, ⟨i, hr⟩, hid⟩

/-- **Distinct ids are read run by run.** Whatever the order of its records is, the distinct ids of
a token array are those of its records with each run of equal ids collapsed. Every script is
answered from the places at which runs begin, and the number of ids to come is never above the hint.
If the records pass the check of their order, the ids strictly ascend and are those that occur. -/
theorem distinctIds_read_runs (x : PosIndex) :
    ∃ d c, x.distinctIds = .ok d ∧ x.tokens.records = .ok c ∧
      d.ReadsRuns (c.toList.map TokenRecord.posIndex) ∧
      (x.tokens.verifySorted = .ok () → d.toList.Pairwise (· < ·) ∧
        ∀ id, id ∈ d.toList ↔ ∃ i, x.tokens.posIndexAt? i = .ok (some id)) :=
  ⟨_, _, x.distinctIds_eq, TokenArray.records_eq, (DistinctIds.at_ofRecords _).readsRuns,
    PosIndex.distinctIds_of_verifySorted x.distinctIds_eq⟩

/-- The least and the greatest id, the latter of two records. -/
theorem distinctIds_read_runs_firstAndLastPos :
    TokenArray.firstAndLastPos.verifySorted = .ok () ∧
      ∃ d, PosIndex.distinctIds ⟨⟨.empty, 0⟩, TokenArray.firstAndLastPos⟩ = .ok d ∧
        d.ReadsRuns [0, 65535, 65535] ∧ d.toList.Pairwise (· < ·) ∧
        ∀ id, id ∈ d.toList ↔ ∃ i, TokenArray.firstAndLastPos.posIndexAt? i = .ok (some id) := by
  have sorted : TokenArray.firstAndLastPos.verifySorted = .ok () := by rfl
  obtain ⟨d, c, hd, hc, hreads, hsorted⟩ :=
    distinctIds_read_runs ⟨⟨.empty, 0⟩, TokenArray.firstAndLastPos⟩
  obtain ⟨hascending, hmem⟩ := hsorted sorted
  have hids : c.toList.map TokenRecord.posIndex = [0, 65535, 65535] := by
    cases hc
    rfl
  rw [hids] at hreads
  exact ⟨sorted, d, hd, hreads, hascending, hmem⟩

end PosDictionary
