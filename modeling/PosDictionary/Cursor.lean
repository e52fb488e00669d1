/-!
# Cursors over a sequence

A cursor stands in a sequence with two ends. Items are taken from the front or from the back, and
none is given twice: what is left lies between `front` and `back`. `Cursor.toList` is what is left;
every operation takes items from it or leaves it as it is.

A `Command` is one request to a cursor, an `Answer` its answer, and `Cursor.run` carries out a
script of commands.
-/

namespace PosDictionary

/-- A place in `items`: the items from `front` up to and without `back` are left. -/
structure Cursor (α : Type) where
  /-- The whole sequence. -/
  items : Array α
  /-- The place of the next item. -/
  front : Nat
  /-- The place after the last item. -/
  back : Nat
  /-- The ends have not passed each other. -/
  front_le : front ≤ back
  /-- What is left lies in the sequence. -/
  back_le : back ≤ items.size

namespace Cursor

variable {α : Type}

/-- A cursor with all items left. -/
def ofArray (items : Array α) : Cursor α where
  items := items
  front := 0
  back := items.size
  front_le := Nat.zero_le _
  back_le := Nat.le_refl _

/-- The number of items left. -/
def len (c : Cursor α) : Nat := c.back - c.front

/-- The items left, front to back. -/
def toList (c : Cursor α) : List α := (c.items.extract c.front c.back).toList

/-- The cursor with nothing left. -/
def exhausted (c : Cursor α) : Cursor α :=
  { c with front := c.back, front_le := Nat.le_refl _ }

/-- Passes over `n` items at the front and takes the one behind them. With no such item, nothing
is left. -/
def nth (c : Cursor α) (n : Nat) : Option α × Cursor α :=
  if h : n < c.len then
    have inside : c.front + n < c.items.size := by
      have := c.back_le
      unfold len at h
      omega
    (some c.items[c.front + n],
      { c with front := c.front + n + 1, front_le := by unfold len at h; omega })
  else
    (none, c.exhausted)

/-- Passes over `n` items at the back and takes the one before them. With no such item, nothing
is left. -/
def nthBack (c : Cursor α) (n : Nat) : Option α × Cursor α :=
  if h : n < c.len then
    have inside : c.back - n - 1 < c.items.size := by
      have := c.back_le
      unfold len at h
      omega
    (some c.items[c.back - n - 1],
      { c with
        back := c.back - n - 1
        front_le := by unfold len at h; omega
        back_le := Nat.le_of_lt inside })
  else
    (none, c.exhausted)

/-- Takes the item at the front. -/
def next (c : Cursor α) : Option α × Cursor α := c.nth 0

/-- Takes the item at the back. -/
def nextBack (c : Cursor α) : Option α × Cursor α := c.nthBack 0

/-- Taking an item leaves one item less. -/
theorem len_next {c c' : Cursor α} {a : α} (h : c.next = (some a, c')) : c'.len < c.len := by
  unfold next nth at h
  split at h
  · next hlt =>
    simp only [Prod.mk.injEq] at h
    obtain ⟨-, rfl⟩ := h
    simp only [len] at hlt ⊢
    omega
  · simp at h

/-! ## Scripts -/

end Cursor

/-- A request that any sequence can answer which is read from its front. -/
inductive Request where
  /-- Take the next item. -/
  | next
  /-- Pass over `n` items and take the one behind them. -/
  | nth (n : Nat)
  /-- Say between which numbers the number of items left lies. -/
  | hint
  /-- Take all items left. -/
  | rest
  /-- Show the items left without taking them. -/
  | preview
deriving DecidableEq, Repr

/-- A request to a cursor. -/
inductive Command where
  /-- A request that concerns the front. -/
  | forward (request : Request)
  /-- Take the item at the back. -/
  | nextBack
  /-- Pass over `n` items at the back and take the one before them. -/
  | nthBack (n : Nat)
  /-- Count the items left. -/
  | len
  /-- Show the items left, last first, without taking them. -/
  | previewBack
deriving DecidableEq, Repr

/-- The answer to a request. -/
inductive Answer (α : Type) where
  /-- The item taken, if there was one. -/
  | item (value : Option α)
  /-- The number of items left is at least `low` and at most `high`. -/
  | hint (low high : Nat)
  /-- The number of items left. -/
  | count (n : Nat)
  /-- The items taken or shown. -/
  | items (values : List α)
deriving DecidableEq, Repr

namespace Cursor

variable {α : Type}

/-- Carries out a request at the front. -/
def answer (c : Cursor α) : Request → Answer α × Cursor α
  | .next => let (item, rest) := c.next; (.item item, rest)
  | .nth n => let (item, rest) := c.nth n; (.item item, rest)
  | .hint => (.hint c.len c.len, c)
  | .rest => (.items c.toList, c.exhausted)
  | .preview => (.items c.toList, c)

/-- Carries out a command. -/
def step (c : Cursor α) : Command → Answer α × Cursor α
  | .forward request => c.answer request
  | .nextBack => let (item, rest) := c.nextBack; (.item item, rest)
  | .nthBack n => let (item, rest) := c.nthBack n; (.item item, rest)
  | .len => (.count c.len, c)
  | .previewBack => (.items c.toList.reverse, c)

/-- The answers to a script, in order. -/
def run (c : Cursor α) : List Command → List (Answer α)
  | [] => []
  | command :: script =>
    let (answer, rest) := c.step command
    answer :: rest.run script

end Cursor

end PosDictionary
