/-!
# Shortest decimals

The decimal with the fewest digits that, read as a binary floating-point number, gives back the
number it was made from; of several such decimals the nearest one, and of two equally near ones
the one with an even last digit.

Numbers are compared exactly, as quotients of natural numbers. A `Binary` number stands for all
real numbers that round to it, an interval around it; the ends of the interval belong to it when
the significand is even.
-/

namespace PosDictionary.Decimal

/-- A positive quotient of natural numbers. -/
structure Quotient where
  /-- The numerator. -/
  num : Nat
  /-- The denominator. -/
  den : Nat

namespace Quotient

/-- `significand * base ^ exponent`. -/
def scaled (significand base : Nat) (exponent : Int) : Quotient :=
  if 0 ≤ exponent then ⟨significand * Nat.pow base exponent.toNat, 1⟩
  else ⟨significand, Nat.pow base (-exponent).toNat⟩

/-- The first quotient is less than the second. -/
def lt (a b : Quotient) : Bool := decide (a.num * b.den < b.num * a.den)

/-- The distance of two quotients. -/
def distance (a b : Quotient) : Quotient :=
  ⟨a.num * b.den - b.num * a.den + (b.num * a.den - a.num * b.den), a.den * b.den⟩

end Quotient

/-- A positive binary floating-point number, `significand * 2 ^ exponent`. -/
structure Binary where
  /-- The significand. -/
  significand : Nat
  /-- The exponent of two. -/
  exponent : Int
  /-- The next smaller number is only half as far away as the next greater one. -/
  narrowBelow : Bool

namespace Binary

/-- The number with these bits, of which the sign is not looked at. -/
def ofBits (bits : UInt64) : Binary :=
  let fraction := (bits &&& 0x000FFFFFFFFFFFFF).toNat
  let biased := ((bits >>> 52) &&& 0x7FF).toNat
  if biased = 0 then ⟨fraction, -1074, false⟩
  else ⟨0x0010000000000000 + fraction, (biased : Int) - 1075, fraction == 0 && decide (1 < biased)⟩

/-- The number itself. -/
def value (b : Binary) : Quotient := .scaled b.significand 2 b.exponent

/-- The lower end of the interval that rounds to the number. -/
def low (b : Binary) : Quotient :=
  if b.narrowBelow then .scaled (4 * b.significand - 1) 2 (b.exponent - 2)
  else .scaled (2 * b.significand - 1) 2 (b.exponent - 1)

/-- The upper end of the interval that rounds to the number. -/
def high (b : Binary) : Quotient := .scaled (2 * b.significand + 1) 2 (b.exponent - 1)

/-- `x` rounds to the number. -/
def covers (b : Binary) (x : Quotient) : Bool :=
  if b.significand % 2 == 0 then !x.lt b.low && !b.high.lt x
  else b.low.lt x && x.lt b.high

/-- The exponent of ten of the first digit of the number. -/
def magnitude (b : Binary) : Int :=
  let lifted := b.value.num * Nat.pow 10 400 / b.value.den
  (Nat.toDigits 10 lifted).length - 401

/-- The decimals next to the number, below and above, among the multiples of `10 ^ exponent`: the
nearer one that rounds to the number, if any does. -/
def onGrid (b : Binary) (exponent : Int) : Option Nat :=
  let unit := Quotient.scaled 1 10 exponent
  let below := b.value.num * unit.den / (b.value.den * unit.num)
  let point := fun n => Quotient.scaled n 10 exponent
  let above := below + 1
  match b.covers (point below), b.covers (point above) with
  | false, false => none
  | true, false => some below
  | false, true => some above
  | true, true =>
    let toBelow := b.value.distance (point below)
    let toAbove := b.value.distance (point above)
    if toBelow.lt toAbove || (!toAbove.lt toBelow && below % 2 == 0) then some below
    else some above

/-- The shortest decimal, as digits and exponent of ten; `digits` digits are tried first and
`more` further counts after it. -/
def search (b : Binary) (digits : Nat) : Nat → Nat × Int
  | 0 => (0, 0)
  | more + 1 =>
    let exponent := b.magnitude - digits + 1
    match b.onGrid exponent with
    | some n => (n, exponent)
    | none => search b (digits + 1) more

/-- Trailing zeros of the digits moved into the exponent; there are at most `count`. -/
def trim (n : Nat) (exponent : Int) : Nat → Nat × Int
  | 0 => (n, exponent)
  | count + 1 =>
    if n % 10 == 0 && n != 0 then trim (n / 10) (exponent + 1) count else (n, exponent)

/-- The shortest decimal, `n * 10 ^ e`, as the pair of `n` and `e`. Seventeen digits always do. -/
def shortest (b : Binary) : Nat × Int :=
  let (n, exponent) := b.search 1 17
  trim n exponent 17

end Binary

end PosDictionary.Decimal
