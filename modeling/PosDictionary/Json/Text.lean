import PosDictionary.Json.Reader

/-!
# Strings in JSON

A string stands between quotes. Behind a backslash a short escape or the four hexadecimal digits
of a code unit may stand; a character beyond the 16-bit range takes two code units, a surrogate
pair, and half a pair is malformed. Control characters have to be escaped.
-/

namespace PosDictionary.Json

namespace Text

/-! ## Reading -/

/-- The value of a hexadecimal digit. -/
def hexDigit? (c : Char) : Option Nat :=
  if '0' ≤ c ∧ c ≤ '9' then some (c.toNat - '0'.toNat)
  else if 'a' ≤ c ∧ c ≤ 'f' then some (c.toNat - 'a'.toNat + 10)
  else if 'A' ≤ c ∧ c ≤ 'F' then some (c.toNat - 'A'.toNat + 10)
  else none

/-- The text has at least four more bytes. -/
def hasFourBytes (s : Rest) : Bool :=
  decide (4 ≤ (s.take 4).foldl (fun size c => size + c.utf8Size) 0)

/-- Reads the digits of a code unit. The text is cut short when it has less than four bytes. -/
def readUnit (s : Rest) : Except ReadError (Nat × Rest) :=
  if !hasFourBytes s then
    .error .cutShort
  else
    match s with
    | a :: b :: c :: d :: rest =>
      match hexDigit? a, hexDigit? b, hexDigit? c, hexDigit? d with
      | some a, some b, some c, some d => .ok (((a * 16 + b) * 16 + c) * 16 + d, rest)
      | _, _, _, _ => .error .malformed
    | _ => .error .malformed

/-- A code unit is the first half of a pair. -/
def isHighSurrogate (unit : Nat) : Bool := decide (0xD800 ≤ unit ∧ unit ≤ 0xDBFF)

/-- A code unit is the second half of a pair. -/
def isLowSurrogate (unit : Nat) : Bool := decide (0xDC00 ≤ unit ∧ unit ≤ 0xDFFF)

/-- Reads the second half of a pair, whose first half is `high`. -/
def readLowSurrogate (high : Nat) (s : Rest) : Except ReadError (Char × Rest) :=
  match s with
  | [] => .error .cutShort
  | '\\' :: [] => .error .cutShort
  | '\\' :: 'u' :: rest => do
    let (low, rest) ← readUnit rest
    if isLowSurrogate low then
      return (Char.ofNat ((high - 0xD800) * 0x400 + (low - 0xDC00) + 0x10000), rest)
    else
      .error .malformed
  | _ => .error .malformed

/-- The character of a short escape. -/
def shortEscape? (c : Char) : Option Char :=
  match c with
  | '"' => some '"'
  | '\\' => some '\\'
  | '/' => some '/'
  | 'b' => some '\x08'
  | 'f' => some '\x0c'
  | 'n' => some '\n'
  | 'r' => some '\r'
  | 't' => some '\t'
  | _ => none

/-- Reads what stands behind a backslash. -/
def readEscape (s : Rest) : Except ReadError (Char × Rest) :=
  match s with
  | [] => .error .cutShort
  | 'u' :: rest => do
    let (unit, rest) ← readUnit rest
    if isLowSurrogate unit then .error .malformed
    else if isHighSurrogate unit then readLowSurrogate unit rest
    else return (Char.ofNat unit, rest)
  | c :: rest =>
    match shortEscape? c with
    | some c => .ok (c, rest)
    | none => .error .malformed

/-- Passes over what stands behind a backslash. Halves of pairs are not matched. -/
def skipEscape (s : Rest) : Except ReadError Rest :=
  match s with
  | [] => .error .cutShort
  | 'u' :: rest => return (← readUnit rest).2
  | c :: rest => if (shortEscape? c).isSome then .ok rest else .error .malformed

/-! ### Every escape takes characters -/

theorem length_readUnit {s rest : Rest} {n : Nat} (h : readUnit s = .ok (n, rest)) :
    rest.length < s.length := by
  unfold readUnit at h
  split at h
  · simp at h
  · split at h
    · split at h
      · simp only [Except.ok.injEq, Prod.mk.injEq] at h
        obtain ⟨-, rfl⟩ := h
        simp only [List.length_cons]
        omega
      · simp at h
    · simp at h

theorem length_readLowSurrogate {high : Nat} {s rest : Rest} {c : Char}
    (h : readLowSurrogate high s = .ok (c, rest)) : rest.length < s.length := by
  unfold readLowSurrogate at h
  split at h
  · simp at h
  · simp at h
  · next tail =>
    cases hu : readUnit tail with
    | error e => simp [hu, bind, Except.bind] at h
    | ok r =>
      obtain ⟨low, after⟩ := r
      have := length_readUnit hu
      simp only [hu, bind, Except.bind] at h
      split at h
      · simp only [pure, Except.pure, Except.ok.injEq, Prod.mk.injEq] at h
        obtain ⟨-, rfl⟩ := h
        simp only [List.length_cons]
        omega
      · simp at h
  · simp at h

theorem length_readEscape {s rest : Rest} {c : Char} (h : readEscape s = .ok (c, rest)) :
    rest.length < s.length := by
  unfold readEscape at h
  split at h
  · simp at h
  · next tail =>
    cases hu : readUnit tail with
    | error e => simp [hu, bind, Except.bind] at h
    | ok r =>
      obtain ⟨unit, after⟩ := r
      have := length_readUnit hu
      simp only [hu, bind, Except.bind] at h
      split at h
      · simp at h
      · split at h
        · have := length_readLowSurrogate h
          simp only [List.length_cons]
          omega
        · simp only [pure, Except.pure, Except.ok.injEq, Prod.mk.injEq] at h
          obtain ⟨-, rfl⟩ := h
          simp only [List.length_cons]
          omega
  · split at h
    · simp only [Except.ok.injEq, Prod.mk.injEq] at h
      obtain ⟨-, rfl⟩ := h
      simp
    · simp at h

theorem length_skipEscape {s rest : Rest} (h : skipEscape s = .ok rest) :
    rest.length < s.length := by
  unfold skipEscape at h
  split at h
  · simp at h
  · next tail =>
    cases hu : readUnit tail with
    | error e => simp [hu, bind, Except.bind] at h
    | ok r =>
      have := @length_readUnit _ r.2 r.1 hu
      simp only [hu, bind, Except.bind, pure, Except.pure, Except.ok.injEq] at h
      subst h
      simp only [List.length_cons]
      omega
  · split at h
    · simp only [Except.ok.injEq] at h
      subst h
      simp
    · simp at h

/-! ### Strings -/

/-- Reads a string behind its first quote; `seen` are the characters read so far, last first. -/
def readFrom (seen : List Char) (s : Rest) : Except ReadError (String × Rest) :=
  match s with
  | [] => .error .cutShort
  | '"' :: rest => .ok (String.ofList seen.reverse, rest)
  | '\\' :: rest =>
    match _h : readEscape rest with
    | .ok (c, rest) => readFrom (c :: seen) rest
    | .error e => .error e
  | c :: rest => if c < ' ' then .error .malformed else readFrom (c :: seen) rest
termination_by s.length
decreasing_by
  · have := length_readEscape _h
    simp only [List.length_cons]
    omega
  · simp

/-- Reads a string behind its first quote. -/
def read (s : Rest) : Except ReadError (String × Rest) := readFrom [] s

/-- Passes over a string behind its first quote. -/
def skip (s : Rest) : Except ReadError Rest :=
  match s with
  | [] => .error .cutShort
  | '"' :: rest => .ok rest
  | '\\' :: rest =>
    match _h : skipEscape rest with
    | .ok rest => skip rest
    | .error e => .error e
  | c :: rest => if c < ' ' then .error .malformed else skip rest
termination_by s.length
decreasing_by
  · have := length_skipEscape _h
    simp only [List.length_cons]
    omega
  · simp

/-- A string takes characters, its last quote at least. -/
theorem length_readFrom {seen : List Char} {s rest : Rest} {text : String}
    (h : readFrom seen s = .ok (text, rest)) : rest.length < s.length := by
  fun_induction readFrom seen s with
  | case1 => simp at h
  | case2 seen tail =>
    simp only [Except.ok.injEq, Prod.mk.injEq] at h
    obtain ⟨-, rfl⟩ := h
    simp
  | case3 seen tail c after hc ih =>
    have := ih h
    have := length_readEscape hc
    simp only [List.length_cons]
    omega
  | case4 => simp at h
  | case5 => simp at h
  | case6 seen c tail _ _ _ ih =>
    have := ih h
    simp only [List.length_cons]
    omega

/-- A string takes characters. -/
theorem length_read {s rest : Rest} {text : String} (h : read s = .ok (text, rest)) :
    rest.length < s.length :=
  length_readFrom h

/-- A string that is passed over takes characters. -/
theorem length_skip {s rest : Rest} (h : skip s = .ok rest) : rest.length < s.length := by
  fun_induction skip s with
  | case1 => simp at h
  | case2 tail =>
    simp only [Except.ok.injEq] at h
    subst h
    simp
  | case3 tail after hc ih =>
    have := ih h
    have := length_skipEscape hc
    simp only [List.length_cons]
    omega
  | case4 => simp at h
  | case5 => simp at h
  | case6 c tail _ _ _ ih =>
    have := ih h
    simp only [List.length_cons]
    omega

/-! ## Writing -/

/-- A hexadecimal digit, in lower case. -/
def hexDigit (n : Nat) : Char := Nat.digitChar (n % 16)

/-- A character as it is written inside a string: only what has to be escaped is. -/
def escape (c : Char) : List Char :=
  match c with
  | '"' => ['\\', '"']
  | '\\' => ['\\', '\\']
  | '\x08' => ['\\', 'b']
  | '\x0c' => ['\\', 'f']
  | '\n' => ['\\', 'n']
  | '\r' => ['\\', 'r']
  | '\t' => ['\\', 't']
  | c =>
    if c < ' ' then ['\\', 'u', '0', '0', hexDigit (c.toNat / 16), hexDigit c.toNat] else [c]

/-- A string as it is written. -/
def write (s : String) : List Char := ['"'] ++ s.toList.flatMap escape ++ ['"']

end Text

end PosDictionary.Json
