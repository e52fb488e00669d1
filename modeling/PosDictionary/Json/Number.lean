import PosDictionary.Json.Numeral

/-!
# Numbers in JSON

A number without fraction and exponent that fits 64 bits is an integer; any other is taken as a
floating-point number: its first digits, as many as fit 64 bits, times a power of ten. A number
that is too large for that is malformed.
-/

namespace PosDictionary.Json

/-- A number as it was read. -/
inductive Number where
  /-- A number without sign. -/
  | natural (value : Nat)
  /-- A number below zero. -/
  | negative (value : Int)
  /-- A number with fraction or exponent, or out of range for the others. -/
  | decimal (value : Float)

namespace Number

/-- A number that is not what was expected. -/
def found : Number → Found
  | .natural value => .integer value
  | .negative value => .integer value
  | .decimal value => .decimal value

/-! ## Significands -/

/-- The greatest significand. -/
def maxSignificand : Nat := UInt64.size - 1

/-- The value of a decimal digit. -/
def digitValue (c : Char) : Nat := c.toNat - '0'.toNat

/-- Appends digits to a significand, up to the first for which it has no room: the significand and
the number of digits appended. -/
def appendDigits (significand : Nat) : List Char → Nat × Nat
  | [] => (significand, 0)
  | c :: rest =>
    let longer := significand * 10 + digitValue c
    if longer ≤ maxSignificand then
      let (n, count) := appendDigits longer rest
      (n, count + 1)
    else
      (significand, 0)

/-- The number that digits stand for. -/
def ofDigits (digits : List Char) : Nat :=
  digits.foldl (fun n c => n * 10 + digitValue c) 0

/-! ## Scaling -/

/-- The greatest power of ten that is a floating-point number, as exponent. -/
def maxPower : Nat := 308

/-- A power of ten; `n` is at most `maxPower`. -/
def power (n : Nat) : Float := Float.ofScientific 1 false n

/-- `x * 10 ^ exponent`, divided in steps when the exponent is far below zero; `none` when the
result is too large. -/
def scale (x : Float) (exponent : Int) : Option Float :=
  if exponent.natAbs ≤ maxPower then
    if 0 ≤ exponent then
      let y := x * power exponent.natAbs
      if y.isInf then none else some y
    else
      some (x / power exponent.natAbs)
  else if x == 0 then
    some x
  else if _h : 0 ≤ exponent then
    none
  else
    scale (x / power maxPower) (exponent + maxPower)
termination_by (-exponent).toNat
decreasing_by
  have : (maxPower : Int) = 308 := rfl
  omega

/-! ## The number of a numeral -/

/-- The integer with this sign. Zero with a sign is no integer. -/
def ofInteger (isNegative : Bool) (significand : Nat) : Number :=
  if ¬ isNegative then
    .natural significand
  else if 0 < significand ∧ significand ≤ UInt64.size / 2 then
    .negative (-significand)
  else
    .decimal (-(UInt64.ofNat significand).toFloat)

/-- The exponent of ten that a numeral states. -/
def statedExponent (n : Numeral) : Int :=
  match n.exponent with
  | none => 0
  | some (isNegative, digits) => if isNegative then -ofDigits digits else ofDigits digits

/-- The number that a numeral stands for; `none` when it is too large. Digits before the point for
which the significand has no room count as powers of ten, such digits behind it are passed over. -/
def ofNumeral (isNegative : Bool) (n : Numeral) : Option Number :=
  let (whole, count) := appendDigits 0 n.whole
  if n.fraction.isNone ∧ n.exponent.isNone ∧ count = n.whole.length then
    some (ofInteger isNegative whole)
  else
    let (significand, places) := appendDigits whole (n.fraction.getD [])
    let exponent := statedExponent n + (n.whole.length - count : Nat) - places
    match scale (UInt64.ofNat significand).toFloat exponent with
    | some x => some (.decimal (if isNegative then -x else x))
    | none => none

/-- Reads a number behind its sign. -/
def readUnsigned (isNegative : Bool) (s : Rest) : Except ReadError (Number × Rest) :=
  match Numeral.read s with
  | .error e => .error e
  | .ok (numeral, rest) =>
    match ofNumeral isNegative numeral with
    | some number => .ok (number, rest)
    | none => .error .malformed

/-- A text begins with a number if it begins with a digit or a minus. -/
def startsHere (c : Char) : Bool := c == '-' || Numeral.isDigit c

/-- Reads a number. -/
def read (s : Rest) : Except ReadError (Number × Rest) :=
  match s with
  | '-' :: rest => readUnsigned true rest
  | s => readUnsigned false s

/-- A number behind its sign takes characters. -/
theorem length_readUnsigned {isNegative : Bool} {s rest : Rest} {n : Number}
    (h : readUnsigned isNegative s = .ok (n, rest)) : rest.length < s.length := by
  unfold readUnsigned at h
  split at h
  · simp at h
  · next hn =>
    split at h
    · simp only [Except.ok.injEq, Prod.mk.injEq] at h
      obtain ⟨-, rfl⟩ := h
      exact Numeral.length_read hn
    · simp at h

/-- A number takes characters. -/
theorem length_read {s rest : Rest} {n : Number} (h : read s = .ok (n, rest)) :
    rest.length < s.length := by
  unfold read at h
  split at h
  · have := length_readUnsigned h
    simp only [List.length_cons]
    omega
  · exact length_readUnsigned h

/-- Passes over a number. Its value does not matter. -/
def skip (s : Rest) : Except ReadError Rest :=
  match s with
  | '-' :: rest => Numeral.skip rest
  | s => Numeral.skip s

/-- A number that is passed over takes characters. -/
theorem length_skip {s rest : Rest} (h : skip s = .ok rest) : rest.length < s.length := by
  unfold skip at h
  split at h
  · have := Numeral.length_skip h
    simp only [List.length_cons]
    omega
  · exact Numeral.length_skip h

end Number

end PosDictionary.Json
