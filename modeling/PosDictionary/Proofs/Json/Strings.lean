import PosDictionary.Json.Text
import PosDictionary.Proofs.Outcomes

/-!
# Strings that are read back

A character is written so that the reader takes it for itself: as it is, behind a backslash, or, if
it is a control character without a short escape, by the digits of its code. One lemma says so for
every character, `readFrom_escape`; a string is read back character by character, `read_write`.
-/

namespace PosDictionary.Json.Text

open Outcome

variable {seen : List Char} {s rest : Rest} {c : Char}

/-! ## Reading a character -/

/-- A quote ends the string. -/
theorem readFrom_quote (seen : List Char) (rest : Rest) :
    readFrom seen ('"' :: rest) = .ok (String.ofList seen.reverse, rest) := by
  rw [readFrom]

/-- A backslash and what it escapes are read as one character. -/
theorem readFrom_backslash (h : readEscape s = .ok (c, rest)) :
    readFrom seen ('\\' :: s) = readFrom (c :: seen) rest := by
  rw [readFrom]
  split
  next c' rest' h' =>
    rw [h] at h'
    cases h'
    rfl
  next e h' =>
    rw [h] at h'
    cases h'

/-- Any other character is read as itself, unless it is a control character. -/
theorem readFrom_plain (quote : c ≠ '"') (backslash : c ≠ '\\') (control : ¬ c < ' ') :
    readFrom seen (c :: rest) = readFrom (c :: seen) rest := by
  rw [readFrom.eq_def]
  split
  · cases ‹c :: rest = []›
  · exact absurd (List.cons.inj ‹_›).1 quote
  · exact absurd (List.cons.inj ‹_›).1 backslash
  next c' rest' _ _ heq =>
    cases heq
    rw [if_neg control]

/-! ## Codes of control characters -/

/-- A hexadecimal digit is read as what it stands for. -/
theorem hexDigit?_hexDigit (n : Nat) : hexDigit? (hexDigit n) = some (n % 16) := by
  have hdigit : ∀ k < 16, hexDigit? (Nat.digitChar k) = some k := by decide
  exact hdigit (n % 16) (Nat.mod_lt n (by omega))

/-- Four characters take at least four bytes. -/
theorem hasFourBytes_cons (a b c d : Char) (rest : Rest) :
    hasFourBytes (a :: b :: c :: d :: rest) := by
  have hpos : ∀ c : Char, 0 < c.utf8Size := Char.utf8Size_pos
  have := hpos a
  have := hpos b
  have := hpos c
  have := hpos d
  exact decide_eq_true
    (show 4 ≤ 0 + a.utf8Size + b.utf8Size + c.utf8Size + d.utf8Size by omega)

/-- Four hexadecimal digits are read as a code unit. -/
theorem readUnit_of_digits {a b c d : Char} {i j k l : Nat} (ha : hexDigit? a = some i)
    (hb : hexDigit? b = some j) (hc : hexDigit? c = some k) (hd : hexDigit? d = some l)
    (rest : Rest) :
    readUnit (a :: b :: c :: d :: rest) = .ok (((i * 16 + j) * 16 + k) * 16 + l, rest) := by
  simp [readUnit, hasFourBytes_cons, ha, hb, hc, hd]

/-- A control character is told from its two last digits. -/
theorem readEscape_control (h : c.toNat < 32) (rest : Rest) :
    readEscape ('u' :: '0' :: '0' :: hexDigit (c.toNat / 16) :: hexDigit c.toNat :: rest) =
      .ok (c, rest) := by
  have hzero : hexDigit? '0' = some 0 := rfl
  have hunit : ((0 * 16 + 0) * 16 + c.toNat / 16 % 16) * 16 + c.toNat % 16 = c.toNat := by omega
  have hlow : isLowSurrogate c.toNat = false := decide_eq_false (by omega)
  have hhigh : isHighSurrogate c.toNat = false := decide_eq_false (by omega)
  rw [readEscape, readUnit_of_digits hzero hzero (hexDigit?_hexDigit _) (hexDigit?_hexDigit _),
    hunit, ok_bind]
  simp [hlow, hhigh, Char.ofNat_toNat]

/-! ## Reading what is written -/

/-- A character that is written is read as itself. -/
theorem readFrom_escape (seen : List Char) (c : Char) (rest : Rest) :
    readFrom seen (escape c ++ rest) = readFrom (c :: seen) rest := by
  unfold escape
  split
  case h_8 quote backslash _ _ _ _ _ =>
    split
    next control => exact readFrom_backslash (readEscape_control control rest)
    next control => exact readFrom_plain quote backslash control
  -- Every other character has a short escape.
  all_goals exact readFrom_backslash rfl

/-- Characters that are written are read behind those read before. -/
theorem readFrom_flatMap_escape (seen chars : List Char) (rest : Rest) :
    readFrom seen (chars.flatMap escape ++ '"' :: rest) =
      .ok (String.ofList (seen.reverse ++ chars), rest) := by
  induction chars generalizing seen with
  | nil => rw [List.flatMap_nil, List.nil_append, readFrom_quote, List.append_nil]
  | cons c chars ih =>
    rw [List.flatMap_cons, List.append_assoc, readFrom_escape, ih, List.reverse_cons,
      List.append_assoc]
    rfl

/-- A string is written behind a quote, from where it is read back. -/
theorem write_append (s : String) (rest : Rest) :
    write s ++ rest = '"' :: (s.toList.flatMap escape ++ '"' :: rest) := by
  simp [write]

/-- A string that is written is read back from behind its first quote. -/
theorem read_write (s : String) (rest : Rest) :
    read (s.toList.flatMap escape ++ '"' :: rest) = .ok (s, rest) := by
  rw [read, readFrom_flatMap_escape, List.reverse_nil, List.nil_append, String.ofList_toList]

end PosDictionary.Json.Text
