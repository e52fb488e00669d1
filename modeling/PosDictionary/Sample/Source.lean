/-!
# Sources of numbers

What samples are made from is not made here: a `Source` gives numbers that look random, and anything
may stand behind it. Every state follows from the one before it, and the first from a seed, so a
source is deterministic by its type.

`Source.Sound` is what the makers of samples rely on. A source that is not sound makes samples of
which nothing is known.
-/

namespace PosDictionary.Sample

/-- A source of numbers. Each draw gives a number and the state behind it. -/
structure Source where
  /-- The states of the source. -/
  State : Type
  /-- The state that belongs to a seed. -/
  seeded : UInt64 → State
  /-- A number from `least` up to and without `bound`. -/
  between (least bound : Nat) : State → Nat × State
  /-- The same for bounds of one byte, which may be drawn in another way. -/
  betweenSmall (least bound : Nat) : State → Nat × State
  /-- A number of two bytes. -/
  next16 : State → UInt16 × State
  /-- Items in another order. -/
  shuffle {α : Type} (items : Array α) : State → Array α × State

/-- What is assumed of a source: a number that is drawn from a range lies in the range, and items
that are shuffled are the same items. -/
structure Source.Sound (source : Source) : Prop where
  /-- A number is drawn from its range, unless that is empty. -/
  between_within : ∀ {least bound : Nat}, least < bound → ∀ state,
    least ≤ (source.between least bound state).1 ∧ (source.between least bound state).1 < bound
  /-- Shuffling neither adds nor drops items. -/
  shuffle_perm : ∀ {α : Type} (items : Array α) state,
    (source.shuffle items state).1.toList.Perm items.toList

end PosDictionary.Sample
