import PosDictionary.Sample.Source

/-!
# A seeded source of numbers

Numbers that look random and are fixed by their seed. The state advances by a constant, and each
number is the product of the state with a scrambled copy of itself, its two halves combined.

A number below a bound is drawn by scaling one from a greater range. The few draws that would make
some results more likely than others are rejected and repeated; after as many draws as there are
states the state is the same again, so no more than that are rejected.
-/

namespace PosDictionary.Sample

/-- A source of numbers. -/
structure Random where
  /-- The state, at first the seed. -/
  state : UInt64
deriving DecidableEq, Repr

namespace Random

/-- What the state advances by. -/
def increment : UInt64 := 0x2d358dccaa6c78a5

/-- What scrambles a copy of the state. -/
def scrambler : UInt64 := 0x8bb84b93962eacc9

/-- A number of 64 bits. -/
def next64 (rng : Random) : UInt64 × Random :=
  let state := rng.state + increment
  let product := state.toNat * (state ^^^ scrambler).toNat
  (UInt64.ofNat product ^^^ UInt64.ofNat (product / UInt64.size), ⟨state⟩)

/-- A number of 32 bits. -/
def next32 (rng : Random) : UInt32 × Random :=
  let (n, rng) := rng.next64
  (n.toUInt32, rng)

/-- A number of 16 bits. -/
def next16 (rng : Random) : UInt16 × Random :=
  let (n, rng) := rng.next32
  (n.toUInt16, rng)

/-- The number of draws after which a state has come back. -/
def period : Nat := UInt64.size

/-- The state in which `draw` gives a number that is kept: a number whose scaled remainder falls
below `threshold` is rejected, at most `repeats` times. -/
def skip (range bound threshold : Nat) (draw : Random → Nat × Random) : Nat → Random → Random
  | 0, rng => rng
  | repeats + 1, rng =>
    let (r, next) := draw rng
    if r * bound % range < threshold then
      skip range bound threshold draw repeats next
    else
      rng

/-- A number below `bound`, scaled from one that `draw` gives below `range`. -/
def below (range bound : Nat) (draw : Random → Nat × Random) (rng : Random) : Nat × Random :=
  let (r, rng) := draw (skip range bound ((range - bound) % bound) draw period rng)
  (r * bound / range, rng)

/-- A number below `bound`, for a bound of up to 64 bits. -/
def below64 (bound : Nat) (rng : Random) : Nat × Random :=
  below UInt64.size bound (fun rng => let (n, rng) := rng.next64; (n.toNat, rng)) rng

/-- A number below `bound`, for a small bound. -/
def below32 (bound : Nat) (rng : Random) : Nat × Random :=
  below UInt32.size bound (fun rng => let (n, rng) := rng.next32; (n.toNat, rng)) rng

/-- The items in an order that depends on the numbers: each item but the first is swapped with one
that is not behind it. -/
def shuffle {α : Type} (items : Array α) (rng : Random) : Array α × Random :=
  (List.range (items.size - 1)).foldl
    (fun (items, rng) i =>
      let (j, rng) := rng.below64 (i + 2)
      (items.swapIfInBounds (i + 1) j, rng))
    (items, rng)

/-- These numbers as a source: a range is drawn from by its width. -/
def source : Source where
  State := Random
  seeded := Random.mk
  between least bound rng :=
    let (n, rng) := rng.below64 (bound - least)
    (least + n, rng)
  betweenSmall least bound rng :=
    let (n, rng) := rng.below32 (bound - least)
    (least + n, rng)
  next16 := next16
  shuffle := fun items rng => rng.shuffle items

end Random

end PosDictionary.Sample
