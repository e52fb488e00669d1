import PosDictionary.Json.Reader

/-!
# Numerals in JSON

A numeral is a number as it is written, behind its sign: digits without needless zeros in front,
then perhaps a point with digits, then perhaps an exponent. Every part that is begun has at least
one digit.
-/

namespace PosDictionary.Json

/-- A number as it is written, without its sign. -/
structure Numeral where
  /-- The digits before the point. -/
  whole : List Char
  /-- The digits behind the point, if there is one. -/
  fraction : Option (List Char)
  /-- Whether the exponent is negative, and its digits, if there is one. -/
  exponent : Option (Bool × List Char)
deriving DecidableEq, Repr

namespace Numeral

/-- The character is a decimal digit. -/
def isDigit (c : Char) : Bool := decide ('0' ≤ c ∧ c ≤ '9')

/-- Reads digits, of which there has to be at least one. -/
def readDigits (s : Rest) : Except ReadError (List Char × Rest) :=
  match s with
  | [] => .error .cutShort
  | c :: _ =>
    if isDigit c then .ok (s.takeWhile isDigit, s.dropWhile isDigit) else .error .malformed

/-- Reads the digits before the point. A zero in front stands alone. -/
def readWhole (s : Rest) : Except ReadError (List Char × Rest) :=
  match readDigits s with
  | .ok (digits, rest) =>
    if digits.head? = some '0' ∧ digits.length ≠ 1 then .error .malformed
    else .ok (digits, rest)
  | .error e => .error e

/-- Reads a point and its digits, if there is one. -/
def readFraction (s : Rest) : Except ReadError (Option (List Char) × Rest) :=
  match s with
  | '.' :: rest =>
    match readDigits rest with
    | .ok (digits, rest) => .ok (some digits, rest)
    | .error e => .error e
  | s => .ok (none, s)

/-- Reads the sign of an exponent: whether it is negative. -/
def readSign (s : Rest) : Bool × Rest :=
  match s with
  | '+' :: rest => (false, rest)
  | '-' :: rest => (true, rest)
  | s => (false, s)

/-- Reads an exponent, if there is one. -/
def readExponent (s : Rest) : Except ReadError (Option (Bool × List Char) × Rest) :=
  match s with
  | [] => .ok (none, [])
  | c :: rest =>
    if c = 'e' ∨ c = 'E' then
      let (negative, rest) := readSign rest
      match readDigits rest with
      | .ok (digits, rest) => .ok (some (negative, digits), rest)
      | .error e => .error e
    else
      .ok (none, c :: rest)

/-- Reads a numeral. -/
def read (s : Rest) : Except ReadError (Numeral × Rest) := do
  let (whole, s) ← readWhole s
  let (fraction, s) ← readFraction s
  let (exponent, s) ← readExponent s
  return (⟨whole, fraction, exponent⟩, s)

/-- Passes over a numeral. One that ends too early is malformed like any other. -/
def skip (s : Rest) : Except ReadError Rest :=
  match read s with
  | .ok (_, rest) => .ok rest
  | .error _ => .error .malformed

/-! ## A numeral takes characters -/

/-- Digits take characters. -/
theorem length_readDigits {s rest : Rest} {digits : List Char}
    (h : readDigits s = .ok (digits, rest)) : rest.length < s.length := by
  unfold readDigits at h
  split at h
  · simp at h
  · next c tail =>
    split at h
    · next hc =>
      simp only [Except.ok.injEq, Prod.mk.injEq] at h
      obtain ⟨-, rfl⟩ := h
      rw [List.dropWhile_cons, if_pos hc]
      have := (List.dropWhile_sublist (l := tail) isDigit).length_le
      simp only [List.length_cons]
      omega
    · simp at h

/-- The digits before the point take characters. -/
theorem length_readWhole {s rest : Rest} {digits : List Char}
    (h : readWhole s = .ok (digits, rest)) : rest.length < s.length := by
  unfold readWhole at h
  split at h
  · next hd =>
    split at h
    · simp at h
    · simp only [Except.ok.injEq, Prod.mk.injEq] at h
      obtain ⟨-, rfl⟩ := h
      exact length_readDigits hd
  · simp at h

/-- What is left behind a fraction, if there is one, is not longer. -/
theorem length_readFraction {s rest : Rest} {digits : Option (List Char)}
    (h : readFraction s = .ok (digits, rest)) : rest.length ≤ s.length := by
  unfold readFraction at h
  split at h
  · next tail =>
    split at h
    · next hd =>
      simp only [Except.ok.injEq, Prod.mk.injEq] at h
      obtain ⟨-, rfl⟩ := h
      have := length_readDigits hd
      simp only [List.length_cons]
      omega
    · simp at h
  · simp only [Except.ok.injEq, Prod.mk.injEq] at h
    obtain ⟨-, rfl⟩ := h
    exact Nat.le_refl _

theorem length_readSign (s : Rest) : (readSign s).2.length ≤ s.length := by
  unfold readSign
  split <;> simp

/-- What is left behind an exponent, if there is one, is not longer. -/
theorem length_readExponent {s rest : Rest} {digits : Option (Bool × List Char)}
    (h : readExponent s = .ok (digits, rest)) : rest.length ≤ s.length := by
  unfold readExponent at h
  split at h
  · simp only [Except.ok.injEq, Prod.mk.injEq] at h
    obtain ⟨-, rfl⟩ := h
    exact Nat.le_refl _
  · next c tail =>
    split at h
    · have hs := length_readSign tail
      dsimp only at h
      split at h
      · next hd =>
        simp only [Except.ok.injEq, Prod.mk.injEq] at h
        obtain ⟨-, rfl⟩ := h
        have := length_readDigits hd
        simp only [List.length_cons]
        omega
      · simp at h
    · simp only [Except.ok.injEq, Prod.mk.injEq] at h
      obtain ⟨-, rfl⟩ := h
      exact Nat.le_refl _

/-- A numeral takes characters. -/
theorem length_read {s rest : Rest} {n : Numeral} (h : read s = .ok (n, rest)) :
    rest.length < s.length := by
  unfold read at h
  cases hw : readWhole s with
  | error e => simp [hw, bind, Except.bind] at h
  | ok w =>
    obtain ⟨whole, s₁⟩ := w
    simp only [hw, bind, Except.bind] at h
    cases hf : readFraction s₁ with
    | error e => simp [hf] at h
    | ok f =>
      obtain ⟨fraction, s₂⟩ := f
      simp only [hf] at h
      cases he : readExponent s₂ with
      | error e => simp [he] at h
      | ok x =>
        obtain ⟨exponent, s₃⟩ := x
        simp only [he, pure, Except.pure, Except.ok.injEq, Prod.mk.injEq] at h
        obtain ⟨-, rfl⟩ := h
        have := length_readWhole hw
        have := length_readFraction hf
        have := length_readExponent he
        omega

/-- A numeral that is passed over takes characters. -/
theorem length_skip {s rest : Rest} (h : skip s = .ok rest) : rest.length < s.length := by
  unfold skip at h
  split at h
  · next hr =>
    simp only [Except.ok.injEq] at h
    subst h
    exact length_read hr
  · simp at h

end Numeral

end PosDictionary.Json
