import PosDictionary.Sample.Random

/-!
# Numbers that are drawn

Whatever the state of the source is, a number that is drawn below a bound lies below it,
`below64_lt`, however many draws are rejected on the way. Shuffling moves items and neither adds nor
drops any, `shuffle_toList_perm`. So these numbers are a sound source, `sound_source`.
-/

namespace PosDictionary.Sample.Random

/-- Scaling a number below `range` gives one below `bound`. -/
theorem mul_div_lt {r range bound : Nat} (hr : r < range) (hbound : 0 < bound) :
    r * bound / range < bound :=
  Nat.div_lt_of_lt_mul (Nat.mul_lt_mul_of_pos_right hr hbound)

/-- A number that is drawn lies below its bound. -/
theorem below64_lt {bound : Nat} (hbound : 0 < bound) (rng : Random) :
    (rng.below64 bound).1 < bound :=
  mul_div_lt (UInt64.toNat_lt _) hbound

/-! ## Shuffling -/

/-- A swap changes the order only. -/
theorem swapIfInBounds_perm {α : Type} (items : Array α) (i j : Nat) :
    (items.swapIfInBounds i j).Perm items := by
  unfold Array.swapIfInBounds
  split
  · split
    · exact Array.swap_perm _ _
    · exact .refl items
  · exact .refl items

/-- Items that are swapped in turn are the same items, wherever the places come from. -/
theorem foldl_swap_perm {α : Type} (places : List Nat) (items : Array α) (rng : Random) :
    (places.foldl
      (fun (items, rng) i =>
        let (j, rng) := rng.below64 (i + 2)
        (items.swapIfInBounds (i + 1) j, rng))
      (items, rng)).1.Perm items := by
  induction places generalizing items rng with
  | nil => exact .refl items
  | cons i places ih =>
    rw [List.foldl_cons]
    exact (ih _ _).trans (swapIfInBounds_perm items (i + 1) _)

/-- Shuffled items are the same items. -/
theorem shuffle_toList_perm {α : Type} (items : Array α) (rng : Random) :
    (rng.shuffle items).1.toList.Perm items.toList :=
  Array.perm_iff_toList_perm.mp (foldl_swap_perm _ items rng)

/-! ## A sound source -/

/-- Behind `least`, a number below the width of a range lies in the range. -/
theorem within_of_fst_lt {least bound : Nat} (draw : Nat × Random) (h : draw.1 < bound - least) :
    least ≤ least + draw.1 ∧ least + draw.1 < bound := by
  omega

/-- The generator does what is asked of a source. -/
theorem sound_source : source.Sound where
  between_within hlt rng := within_of_fst_lt _ (below64_lt (Nat.sub_pos_of_lt hlt) rng)
  shuffle_perm items rng := shuffle_toList_perm items rng

end PosDictionary.Sample.Random
