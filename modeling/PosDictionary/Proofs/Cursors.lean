import PosDictionary.Cursor

/-!
# What a cursor has left

A cursor is known by the list of the items that it has left, `Cursor.toList`. Taking an item at the
front answers the item there and leaves those behind it; taking one at the back answers the item
there and leaves those before it.
-/

namespace PosDictionary.Cursor

variable {α : Type}

/-- A new cursor is to give all items. -/
@[simp] theorem toList_ofArray (items : Array α) : (ofArray items).toList = items.toList := by
  simp [toList, ofArray]

/-- What a cursor is to give lies between its two ends. -/
theorem toList_eq (c : Cursor α) :
    c.toList = (c.items.toList.drop c.front).take (c.back - c.front) := by
  simp [toList]

/-- A cursor knows how many items it is to give. -/
@[simp] theorem length_toList (c : Cursor α) : c.toList.length = c.len := by
  have := c.back_le
  rw [toList_eq, List.length_take, List.length_drop, len]
  simp only [Array.length_toList]
  omega

/-- A cursor that has ended gives nothing. -/
@[simp] theorem toList_exhausted (c : Cursor α) : c.exhausted.toList = [] := by
  simp [toList_eq, exhausted]

/-! ## Taking items at the front -/

/-- Passing over items takes the item behind them. -/
theorem fst_nth (c : Cursor α) (n : Nat) : (c.nth n).1 = c.toList[n]? := by
  unfold nth
  split
  next h =>
    have hn : n < c.back - c.front := h
    have := c.back_le
    have hitem : c.front + n < c.items.toList.length := by rw [Array.length_toList]; omega
    rw [toList_eq, List.getElem?_take_of_lt hn, List.getElem?_drop, List.getElem?_eq_getElem hitem]
    rfl
  next h => rw [List.getElem?_eq_none (by simpa using h)]

/-- Passing over items leaves those behind the item that is taken. -/
theorem toList_snd_nth (c : Cursor α) (n : Nat) : (c.nth n).2.toList = c.toList.drop (n + 1) := by
  unfold nth
  split
  next h =>
    rw [toList_eq, toList_eq, List.drop_take, List.drop_drop]
    show (c.items.toList.drop (c.front + n + 1)).take (c.back - (c.front + n + 1)) = _
    rw [Nat.add_assoc, Nat.sub_add_eq]
  next h => rw [toList_exhausted, List.drop_eq_nil_of_le (by rw [length_toList]; omega)]

/-- A cursor that gives no item has none, and has none later. -/
theorem toList_of_next_eq_none {c rest : Cursor α} (h : c.next = (none, rest)) :
    c.toList = [] ∧ rest.toList = [] := by
  have hfirst : c.toList[0]? = none := by rw [← fst_nth, ← next, h]
  have hrest : rest.toList = c.toList.drop 1 := by rw [← toList_snd_nth, ← next, h]
  rw [← List.head?_eq_getElem?, List.head?_eq_none_iff] at hfirst
  exact ⟨hfirst, by rw [hrest, hfirst]; rfl⟩

/-- An item that is given was the first one, and the others follow. -/
theorem toList_of_next_eq_some {c rest : Cursor α} {a : α} (h : c.next = (some a, rest)) :
    c.toList = a :: rest.toList := by
  have hfirst : c.toList[0]? = some a := by rw [← fst_nth, ← next, h]
  have hrest : rest.toList = c.toList.drop 1 := by rw [← toList_snd_nth, ← next, h]
  rw [← List.head?_eq_getElem?, List.head?_eq_some_iff] at hfirst
  obtain ⟨tail, htail⟩ := hfirst
  rw [hrest, htail]
  rfl

/-! ## Taking items at the back -/

/-- Passing over items at the back takes the item before them. -/
theorem fst_nthBack (c : Cursor α) (n : Nat) : (c.nthBack n).1 = c.toList.reverse[n]? := by
  unfold nthBack
  split
  next h =>
    have hn : n < c.toList.length := by rwa [length_toList]
    have hlen : c.len = c.back - c.front := rfl
    have := c.back_le
    rw [List.getElem?_reverse hn, length_toList, toList_eq,
      List.getElem?_take_of_lt (by omega), List.getElem?_drop,
      show c.front + (c.len - 1 - n) = c.back - n - 1 by omega,
      List.getElem?_eq_getElem (by rw [Array.length_toList]; omega)]
    rfl
  next h => rw [List.getElem?_eq_none (by simpa using h)]

/-- Passing over items at the back leaves those before the item that is taken. -/
theorem toList_snd_nthBack (c : Cursor α) (n : Nat) :
    (c.nthBack n).2.toList = c.toList.take (c.len - (n + 1)) := by
  unfold nthBack
  split
  next h =>
    have hlen : c.len = c.back - c.front := rfl
    rw [toList_eq, toList_eq, List.take_take]
    show (c.items.toList.drop c.front).take (c.back - n - 1 - c.front) = _
    congr 1
    omega
  next h => rw [toList_exhausted, Nat.sub_eq_zero_of_le (by omega), List.take_zero]

end PosDictionary.Cursor
