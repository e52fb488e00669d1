import PosDictionary.Proofs.Cursors
import PosDictionary.Proofs.StringTable.Strings
import PosDictionary.Proofs.TokenArray.Codec

/-!
# Scripts run on lists

A `Reading` answers a script from a list. It can take the first item and the last one; whoever asks
it to pass over items makes it take them one by one. A cursor computes places instead, and
`Cursor.reads` says that no script can tell it from the list of the items that it has left:

* `Cursor.step_eq` : one command, answered from either, leaves the same items;
* `Cursor.run_eq` : hence all commands of a script are answered alike;
* `Reading.encloses_run` : what a script takes from the ends lies around what it leaves;
* `sequences_read_as_lists` : spans of records and the strings of a table are read in this way.
-/

namespace PosDictionary

namespace Reading

variable {α : Type}

/-! ## Lists read from both ends -/

/-- Takes the first item. -/
def takeFirst (items : List α) : Option α × List α := (items.head?, items.tail)

/-- Takes the last item. -/
def takeLast (items : List α) : Option α × List α := (items.getLast?, items.dropLast)

/-- Takes `n` items, one by one, and then the one that is answered. -/
def takeAfter (take : List α → Option α × List α) : Nat → List α → Option α × List α
  | 0, items => take items
  | n + 1, items => takeAfter take n (take items).2

/-- Carries out a command. -/
def step (items : List α) : Command → Answer α × List α
  | .forward .next => let (item, rest) := takeFirst items; (.item item, rest)
  | .forward (.nth n) => let (item, rest) := takeAfter takeFirst n items; (.item item, rest)
  | .forward .hint => (.hint items.length items.length, items)
  | .forward .rest => (.items items, [])
  | .forward .preview => (.items items, items)
  | .nextBack => let (item, rest) := takeLast items; (.item item, rest)
  | .nthBack n => let (item, rest) := takeAfter takeLast n items; (.item item, rest)
  | .len => (.count items.length, items)
  | .previewBack => (.items items.reverse, items)

/-- The answers to a script, in order. -/
def run (items : List α) : List Command → List (Answer α)
  | [] => []
  | command :: script => (step items command).1 :: run (step items command).2 script

/-- What a script leaves. -/
def left (items : List α) : List Command → List α
  | [] => items
  | command :: script => left (step items command).2 script

/-- The answer when there are no items. -/
def answerOfNone : Command → Answer α
  | .forward .next | .forward (.nth _) | .nextBack | .nthBack _ => .item none
  | .forward .hint => .hint 0 0
  | .len => .count 0
  | .forward .rest | .forward .preview | .previewBack => .items []

/-- Taking the first item again and again takes the item at place `n`. -/
theorem takeAfter_takeFirst (n : Nat) (items : List α) :
    takeAfter takeFirst n items = (items[n]?, items.drop (n + 1)) := by
  induction n generalizing items with
  | zero => simp [takeAfter, takeFirst, List.head?_eq_getElem?]
  | succ n ih => simp [takeAfter, takeFirst, ih]

/-- Taking the last item again and again takes the item at place `n` from the back. -/
theorem takeAfter_takeLast (n : Nat) (items : List α) :
    takeAfter takeLast n items = (items.reverse[n]?, items.take (items.length - (n + 1))) := by
  induction n generalizing items with
  | zero => simp [takeAfter, takeLast, List.getLast?_eq_head?_reverse, List.head?_eq_getElem?,
      List.dropLast_eq_take]
  | succ n ih =>
    simp only [takeAfter, takeLast, ih, List.length_dropLast]
    rw [← List.tail_reverse, List.getElem?_tail, List.dropLast_eq_take, List.take_take]
    congr 2
    omega

/-- Passing over `n` items takes these and the one that is answered. -/
theorem step_nth (items : List α) (n : Nat) :
    step items (.forward (.nth n)) = (.item items[n]?, items.drop (n + 1)) := by
  simp [step, takeAfter_takeFirst]

/-- From the back, passing over `n` items takes these and the one that is answered. -/
theorem step_nthBack (items : List α) (n : Nat) :
    step items (.nthBack n) =
      (.item items.reverse[n]?, items.take (items.length - (n + 1))) := by
  simp [step, takeAfter_takeLast]

/-- The next item is the one behind no others. -/
theorem step_next (items : List α) :
    step items (.forward .next) = step items (.forward (.nth 0)) := rfl

/-- The last item is the one before no others. -/
theorem step_nextBack (items : List α) : step items .nextBack = step items (.nthBack 0) := rfl

/-! ## Scripts in parts -/

/-- A script goes on where the one before has left off. -/
theorem run_append (items : List α) (script more : List Command) :
    run items (script ++ more) = run items script ++ run (left items script) more := by
  induction script generalizing items with
  | nil => rfl
  | cons command script ih => simp [run, left, ih]

/-- What two scripts leave is what the second leaves of the rest of the first. -/
theorem left_append (items : List α) (script more : List Command) :
    left items (script ++ more) = left (left items script) more := by
  induction script generalizing items with
  | nil => rfl
  | cons command script ih => simp [left, ih]

/-! ## Nothing left -/

/-- A command to no items leaves none. -/
theorem step_nil (command : Command) :
    step ([] : List α) command = (answerOfNone command, []) := by
  rcases command with (_ | n | _ | _ | _) | _ | n | _ | _
  case forward.nth => simp [step_nth, answerOfNone]
  case nthBack => simp [step_nthBack, answerOfNone]
  all_goals rfl

/-- Where nothing is left, every command says so and changes nothing. -/
theorem run_nil (script : List Command) : run ([] : List α) script = script.map answerOfNone := by
  induction script with
  | nil => rfl
  | cons command script ih => rw [run, step_nil, ih, List.map_cons]

/-- The number of items that a command passes over before it takes one, if it takes a single
item. -/
def passedOver : Command → Option Nat
  | .forward .next => some 0
  | .forward (.nth n) => some n
  | .nextBack => some 0
  | .nthBack n => some n
  | _ => none

/-- Passing over all items takes none and leaves none. -/
theorem step_of_length_le {items : List α} {n : Nat} {command : Command}
    (passes : passedOver command = some n) (h : items.length ≤ n) :
    step items command = (.item none, []) := by
  have front : step items (.forward (.nth n)) = (.item none, []) := by
    rw [step_nth, List.getElem?_eq_none h, List.drop_eq_nil_of_le (Nat.le_succ_of_le h)]
  have back : step items (.nthBack n) = (.item none, []) := by
    rw [step_nthBack, List.getElem?_eq_none (by simpa using h),
      Nat.sub_eq_zero_of_le (Nat.le_succ_of_le h), List.take_zero]
  rcases command with (_ | m | _ | _ | _) | _ | m | _ | _ <;> cases passes
  · rw [step_next, front]
  · exact front
  · rw [step_nextBack, back]
  · exact back

/-! ## Items given -/

/-- What an answer to a command gives from the front. -/
def givenFirst : Command → Answer α → List α
  | .forward .next, .item a => a.toList
  | .forward (.nth _), .item a => a.toList
  | .forward .rest, .items values => values
  | _, _ => []

/-- What an answer to a command gives from the back. -/
def givenLast : Command → Answer α → List α
  | .nextBack, .item a => a.toList
  | .nthBack _, .item a => a.toList
  | _, _ => []

/-- What the answers to a script give from the front, in order. -/
def firsts (script : List Command) (answers : List (Answer α)) : List α :=
  (List.zipWith givenFirst script answers).flatten

/-- What the answers to a script give from the back, in order. -/
def lasts (script : List Command) (answers : List (Answer α)) : List α :=
  (List.zipWith givenLast script answers).flatten

/-- The command leaves no gap to what was given before. -/
def Gapless (command : Command) : Prop := ∀ n ∈ passedOver command, n = 0

/-- The items that are left, `rest`, lie in one block of `items`. Those given from the front lie
before it, in their order, and those given from the back lie behind it, in reverse. Where there are
no gaps, these are all items. -/
def Encloses (items front rest back : List α) (gapless : Prop) : Prop :=
  ∃ before behind, items = before ++ rest ++ behind ∧
    front.Sublist before ∧ back.reverse.Sublist behind ∧
    (gapless → front = before ∧ back.reverse = behind)

/-- At first all items are left. -/
theorem encloses_all (items : List α) (gapless : Prop) : Encloses items [] items [] gapless :=
  ⟨[], [], by simp, .slnil, .slnil, fun _ => ⟨rfl, rfl⟩⟩

/-- What is given later lies inside of what was left before. -/
theorem Encloses.trans {items front middle back front' rest back' : List α}
    {gapless gapless' : Prop}
    (h : Encloses items front middle back gapless)
    (h' : Encloses middle front' rest back' gapless') :
    Encloses items (front ++ front') rest (back ++ back') (gapless ∧ gapless') := by
  obtain ⟨before, behind, rfl, hfront, hback, hall⟩ := h
  obtain ⟨before', behind', rfl, hfront', hback', hall'⟩ := h'
  refine ⟨before ++ before', behind' ++ behind, by simp, hfront.append hfront', ?_, ?_⟩
  · rw [List.reverse_append]
    exact hback'.append hback
  · rintro ⟨hgapless, hgapless'⟩
    obtain ⟨rfl, rfl⟩ := hall hgapless
    obtain ⟨rfl, rfl⟩ := hall' hgapless'
    exact ⟨rfl, List.reverse_append⟩

/-- An item taken from the front lies behind those that are passed over. -/
theorem encloses_drop (items : List α) {n : Nat} {gapless : Prop} (h : gapless → n = 0) :
    Encloses items items[n]?.toList (items.drop (n + 1)) [] gapless := by
  refine ⟨items.take (n + 1), [], by simp, ?_, .slnil, ?_⟩
  · rw [List.take_add_one]
    exact List.sublist_append_right _ _
  · intro hgapless
    simp [h hgapless, List.take_add_one]

/-- An item taken from the back lies before those that are passed over. -/
theorem encloses_take (items : List α) {n : Nat} {gapless : Prop} (h : gapless → n = 0) :
    Encloses items [] (items.take (items.length - (n + 1))) items.reverse[n]?.toList gapless := by
  have hbehind : (items.reverse.take (n + 1)).reverse = items.drop (items.length - (n + 1)) := by
    rw [List.reverse_take, List.reverse_reverse, List.length_reverse]
  refine ⟨[], (items.reverse.take (n + 1)).reverse, ?_, .slnil, ?_, ?_⟩
  · rw [hbehind, List.nil_append, List.take_append_drop]
  · rw [List.take_add_one]
    exact (List.sublist_append_right _ _).reverse
  · intro hgapless
    simp [h hgapless, List.take_add_one]

/-- One command keeps what is left in one piece. -/
theorem encloses_step (items : List α) (command : Command) :
    Encloses items (givenFirst command (step items command).1) (step items command).2
      (givenLast command (step items command).1) (Gapless command) := by
  rcases command with (_ | n | _ | _ | _) | _ | n | _ | _
  case forward.next =>
    rw [step_next, step_nth]
    exact encloses_drop items fun h => h 0 rfl
  case forward.nth =>
    rw [step_nth]
    exact encloses_drop items fun h => h n rfl
  case nextBack =>
    rw [step_nextBack, step_nthBack]
    exact encloses_take items fun h => h 0 rfl
  case nthBack =>
    rw [step_nthBack]
    exact encloses_take items fun h => h n rfl
  case forward.rest => exact ⟨items, [], by simp [step], .refl _, .slnil, fun _ => ⟨rfl, rfl⟩⟩
  all_goals exact encloses_all items _

/-- **What a script gives lies around what it leaves.** -/
theorem encloses_run (items : List α) (script : List Command) :
    Encloses items (firsts script (run items script)) (left items script)
      (lasts script (run items script)) (∀ command ∈ script, Gapless command) := by
  induction script generalizing items with
  | nil => exact encloses_all items _
  | cons command script ih =>
    -- The rest of the script runs on the block that the first command leaves.
    rw [List.forall_mem_cons]
    exact (encloses_step items command).trans (ih _)

end Reading

/-! ## Cursors -/

namespace Cursor

open Reading

variable {α : Type}

/-- A command leaves the cursor where it leaves the list of its items. -/
theorem step_eq (c : Cursor α) (command : Command) :
    Reading.step c.toList command = ((c.step command).1, (c.step command).2.toList) := by
  rcases command with (_ | n | _ | _ | _) | _ | n | _ | _
  case forward.next =>
    rw [step_next, step_nth, ← fst_nth, ← toList_snd_nth]
    rfl
  case forward.nth =>
    rw [step_nth, ← fst_nth, ← toList_snd_nth]
    rfl
  case nextBack =>
    rw [step_nextBack, step_nthBack, ← fst_nthBack, length_toList, ← toList_snd_nthBack]
    rfl
  case nthBack =>
    rw [step_nthBack, ← fst_nthBack, length_toList, ← toList_snd_nthBack]
    rfl
  all_goals simp [Reading.step, step, answer]

/-- No script tells a cursor from the list of its items. -/
theorem run_eq (c : Cursor α) (script : List Command) :
    c.run script = Reading.run c.toList script := by
  induction script generalizing c with
  | nil => rfl
  | cons command script ih => rw [Reading.run, step_eq, ← ih]; rfl

-- An item that is passed over is not given from the other end either.
example : (ofArray #[1, 2, 3, 4]).run [.forward (.nth 1), .nextBack, .nthBack 5, .forward .next] =
    [.item (some 2), .item (some 4), .item none, .item none] := by decide

/-- All questions to a cursor that take nothing, and then all items. -/
def inspection : List Command :=
  [.forward .hint, .len, .forward .preview, .previewBack, .forward .rest]

/-- A cursor that reads a list: it answers every script from the list. -/
structure Reads (c : Cursor α) (items : List α) : Prop where
  /-- The answers are those that the list gives. -/
  run_eq : ∀ script, c.run script = Reading.run items script
  /-- After any script, the cursor says how many items are left and shows them, front to back and
  back to front, and this moves it nowhere. -/
  inspect : ∀ script, c.run (script ++ inspection) = c.run script ++
    [.hint (left items script).length (left items script).length,
      .count (left items script).length, .items (left items script),
      .items (left items script).reverse, .items (left items script)]
  /-- No item is given twice, and those that are left are none of those given. None is skipped,
  unless a command asks for it. -/
  encloses : ∀ script, Encloses items (firsts script (c.run script)) (left items script)
    (lasts script (c.run script)) (∀ command ∈ script, Gapless command)
  /-- Passing over all items that are left gives none and leaves none. -/
  run_past_end : ∀ script n command, passedOver command = some n →
    (left items script).length ≤ n →
    c.run (script ++ [command]) = c.run script ++ [.item none] ∧
      left items (script ++ [command]) = []
  /-- Where nothing is left, nothing is given any more. -/
  run_exhausted : ∀ script more, left items script = [] →
    c.run (script ++ more) = c.run script ++ more.map answerOfNone

/-- A cursor reads the list of the items that it has left. -/
theorem reads (c : Cursor α) : c.Reads c.toList where
  run_eq := c.run_eq
  inspect script := by
    rw [c.run_eq, c.run_eq, run_append]
    rfl
  encloses script := by
    rw [c.run_eq]
    exact encloses_run _ script
  run_past_end script n command passes h := by
    have hstep := step_of_length_le passes h
    rw [c.run_eq, c.run_eq, run_append, left_append]
    constructor
    · rw [Reading.run, Reading.run, hstep]
    · rw [left, left, hstep]
  run_exhausted script more h := by
    rw [c.run_eq, c.run_eq, run_append, h, run_nil]

end Cursor

/-! ## Records and strings -/

open Outcome

/-- A span of records is refused if it does not lie in the array, and only then. -/
theorem TokenArray.range_eq_error_iff (t : TokenArray) (span : Span) (f : Fault) :
    t.range span = .error f ↔ f = .recordRangeOutOfBounds span.start span.stop t.len ∧
      ¬ (span.start ≤ span.stop ∧ span.stop ≤ t.len) := by
  by_cases h : span.start ≤ span.stop ∧ span.stop ≤ t.len
  · have hread := range_eq h.1 (by rw [length_stored]; exact h.2)
    simp [h, hread]
  · rw [range, if_neg h]
    simp [h, eq_comm]

/-- The cursor over a span reads the records at its ordinals, which are those that its bytes are cut
into. -/
theorem TokenArray.exists_reads_of_le (t : TokenArray) {span : Span}
    (h : span.start ≤ span.stop) (inside : span.stop ≤ t.len) :
    ∃ c records, t.range span = .ok c ∧ t.cut span = .ok records ∧ records.length = span.size ∧
      (∀ (i : Nat) (hi : i < records.length),
        t.get? (span.start + i) = .ok (some records[i])) ∧
      c.Reads records := by
  have hstop : span.stop ≤ t.stored.length := by rwa [length_stored]
  refine ⟨_, _, range_eq h hstop, ?_, ?_, ?_, Cursor.reads _⟩
  · rw [Cursor.toList_ofArray]
    exact cut_eq h hstop
  · rw [Cursor.toList_ofArray, List.length_take, List.length_drop, Span.size]
    omega
  · intro i hi
    have hplace : span.start + i < t.stored.length := by
      simp only [Cursor.toList_ofArray, List.length_take, List.length_drop] at hi
      omega
    rw [get?_eq, List.getElem?_eq_getElem hplace]
    simp

/-- The cursor over the strings of an accepted table reads the strings at its indices. -/
theorem StringTable.exists_reads_of_ofBytes {b : Bytes} {t : StringTable} (h : ofBytes b = .ok t) :
    ∃ c texts, t.strings = .ok c ∧ texts.length = t.len ∧
      (∀ (i : Nat) (hi : i < texts.length), t.get i = .ok texts[i]) ∧ c.Reads texts := by
  obtain ⟨texts, hshows, -⟩ := exists_shows_of_ofBytes h
  refine ⟨_, texts, hshows.strings_eq, hshows.len_eq.symm, fun i hi => hshows.get_of_lt hi, ?_⟩
  simpa using Cursor.reads (.ofArray texts.toArray)

/-- **Records and strings are read as lists.** A span of records is refused exactly if it does not
lie in the array. The cursor over a span that does answers every script as the list of its records,
those at its ordinals and those that its bytes are cut into. The cursor over the strings of an
accepted table answers as the list of its strings. A script may read from both ends and pass over
any number of items. -/
theorem sequences_read_as_lists :
    (∀ (t : TokenArray) (span : Span),
      (∀ f, t.range span = .error f ↔ f = .recordRangeOutOfBounds span.start span.stop t.len ∧
        ¬ (span.start ≤ span.stop ∧ span.stop ≤ t.len)) ∧
      (span.start ≤ span.stop → span.stop ≤ t.len →
        ∃ c records, t.range span = .ok c ∧ t.cut span = .ok records ∧
          records.length = span.size ∧
          (∀ (i : Nat) (hi : i < records.length),
            t.get? (span.start + i) = .ok (some records[i])) ∧
          c.Reads records)) ∧
    ∀ (b : Bytes) (t : StringTable), StringTable.ofBytes b = .ok t →
      ∃ c texts, t.strings = .ok c ∧ texts.length = t.len ∧
        (∀ (i : Nat) (hi : i < texts.length), t.get i = .ok texts[i]) ∧ c.Reads texts :=
  ⟨fun t span => ⟨t.range_eq_error_iff span, t.exists_reads_of_le⟩,
    fun _ _ => StringTable.exists_reads_of_ofBytes⟩

/-- The cursors over an array of two records and over a table of four strings. -/
theorem sequences_read_as_lists_nestedStrings :
    (∃ c records, TokenArray.range ⟨TokenArray.sixteenBytes⟩ ⟨0, 2⟩ = .ok c ∧
      TokenArray.cut ⟨TokenArray.sixteenBytes⟩ ⟨0, 2⟩ = .ok records ∧ records.length = 2 ∧
      (∀ (i : Nat) (hi : i < records.length),
        TokenArray.get? ⟨TokenArray.sixteenBytes⟩ (0 + i) = .ok (some records[i])) ∧
      c.Reads records) ∧
    StringTable.ofBytes StringTable.nestedStrings = .ok ⟨StringTable.nestedStrings, 4⟩ ∧
      ∃ c texts, StringTable.strings ⟨StringTable.nestedStrings, 4⟩ = .ok c ∧ texts.length = 4 ∧
        (∀ (i : Nat) (hi : i < texts.length),
          StringTable.get ⟨StringTable.nestedStrings, 4⟩ i = .ok texts[i]) ∧ c.Reads texts := by
  obtain ⟨hrecords, hstrings⟩ := sequences_read_as_lists
  obtain ⟨-, hread⟩ := hrecords ⟨TokenArray.sixteenBytes⟩ ⟨0, 2⟩
  exact ⟨hread (by decide) (by decide), StringTable.ofBytes_nestedStrings,
    hstrings _ _ StringTable.ofBytes_nestedStrings⟩

end PosDictionary
