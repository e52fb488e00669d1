import PosDictionary.Proofs.Digits
import PosDictionary.Proofs.Json.Readers

/-!
# Numbers that are read back

The digits of a number are a numeral without needless zeros. As long as the number is a significand,
it is read back from them as a natural number, `read_toDigits`; so is every number of 64 bits,
`reads_uint64`.
-/

namespace PosDictionary.Json

open Outcome

namespace Number

variable {digits : List Char} {rest : Rest} {n : Nat}

/-! ## Numerals -/

/-- A digit of a numeral is a decimal digit. -/
theorem isDigit_eq (c : Char) : Numeral.isDigit c = c.isDigit := by
  simp [Numeral.isDigit, Char.isDigit, Char.le_def]

/-- Digits are read as far as they go. -/
theorem readDigits_append (nonempty : digits ≠ []) (all : ∀ c ∈ digits, c.isDigit)
    (ends : ∀ c ∈ rest.head?, c.isDigit = false) :
    Numeral.readDigits (digits ++ rest) = .ok (digits, rest) := by
  have htake : rest.takeWhile Numeral.isDigit = [] := by
    cases rest with
    | nil => rfl
    | cons c rest => simp [isDigit_eq, ends c rfl]
  have hdrop : rest.dropWhile Numeral.isDigit = rest := by
    cases rest with
    | nil => rfl
    | cons c rest => simp [isDigit_eq, ends c rfl]
  have hall : ∀ c ∈ digits, Numeral.isDigit c = true := fun c hc => (isDigit_eq c).trans (all c hc)
  obtain ⟨c, digits, rfl⟩ := List.exists_cons_of_ne_nil nonempty
  have hread : Numeral.readDigits (c :: digits ++ rest) =
      .ok ((c :: digits ++ rest).takeWhile Numeral.isDigit,
        (c :: digits ++ rest).dropWhile Numeral.isDigit) :=
    if_pos (hall c List.mem_cons_self)
  rw [hread, List.takeWhile_append_of_pos hall, List.dropWhile_append_of_pos hall, htake, hdrop,
    List.append_nil]

/-- What may stand behind a value does not go on with a number. -/
theorem not_isDigit_of_behind (h : Behind rest) : ∀ c ∈ rest.head?, c.isDigit = false := by
  intro c hc
  rcases h c hc with rfl | rfl | rfl <;> rfl

/-- What may stand behind a value does not go on with a point. -/
theorem readFraction_of_behind (h : Behind rest) :
    Numeral.readFraction rest = .ok (none, rest) := by
  cases rest with
  | nil => rfl
  | cons c rest => rcases h c rfl with rfl | rfl | rfl <;> rfl

/-- What may stand behind a value does not go on with an exponent. -/
theorem readExponent_of_behind (h : Behind rest) :
    Numeral.readExponent rest = .ok (none, rest) := by
  cases rest with
  | nil => rfl
  | cons c rest => rcases h c rfl with rfl | rfl | rfl <;> rfl

/-- The digits of a number are a numeral. -/
theorem readNumeral_toDigits (n : Nat) (h : Behind rest) :
    Numeral.read (Nat.toDigits 10 n ++ rest) = .ok (⟨Nat.toDigits 10 n, none, none⟩, rest) := by
  have hzero : ¬ ((Nat.toDigits 10 n).head? = some '0' ∧ (Nat.toDigits 10 n).length ≠ 1) := by
    rintro ⟨hzero, hlen⟩
    exact Digits.head?_toDigits_ne (Digits.pos_of_length_toDigits hlen) hzero
  have hwhole : Numeral.readWhole (Nat.toDigits 10 n ++ rest) = .ok (Nat.toDigits 10 n, rest) := by
    unfold Numeral.readWhole
    rw [readDigits_append Nat.toDigits_ne_nil (fun _ => Digits.isDigit_of_mem_toDigits)
      (not_isDigit_of_behind h)]
    exact if_neg hzero
  unfold Numeral.read
  simp only [hwhole, readFraction_of_behind h, readExponent_of_behind h, ok_bind, pure_eq_ok]

/-! ## Significands -/

/-- A significand has room for all digits of a number that is not too great. -/
theorem appendDigits_eq {significand : Nat} (digits : List Char)
    (h : Nat.ofDigitChars 10 digits significand ≤ maxSignificand) :
    appendDigits significand digits = (Nat.ofDigitChars 10 digits significand, digits.length) := by
  induction digits generalizing significand with
  | nil => rfl
  | cons c digits ih =>
    have hlonger : 10 * significand + (c.toNat - '0'.toNat) =
        significand * 10 + digitValue c := by
      rw [Nat.mul_comm]
      rfl
    rw [Nat.ofDigitChars_cons, hlonger] at h ⊢
    have hfits : significand * 10 + digitValue c ≤ maxSignificand :=
      Nat.le_trans (Digits.le_ofDigitChars _ _) h
    rw [appendDigits, if_pos hfits, ih h]
    rfl

/-- The numeral of a significand stands for it. -/
theorem ofNumeral_toDigits (h : n ≤ maxSignificand) :
    ofNumeral false ⟨Nat.toDigits 10 n, none, none⟩ = some (.natural n) := by
  have hvalue : Nat.ofDigitChars 10 (Nat.toDigits 10 n) 0 = n := Nat.ofDigitChars_ten_toDigits
  have happend : appendDigits 0 (Nat.toDigits 10 n) =
      (Nat.ofDigitChars 10 (Nat.toDigits 10 n) 0, (Nat.toDigits 10 n).length) :=
    appendDigits_eq _ (by rwa [hvalue])
  rw [hvalue] at happend
  simp [ofNumeral, happend, ofInteger]

/-! ## Numbers -/

/-- The digits of a number are read as this number. -/
theorem readUnsigned_toDigits (h : n ≤ maxSignificand) (hrest : Behind rest) :
    readUnsigned false (Nat.toDigits 10 n ++ rest) = .ok (.natural n, rest) := by
  unfold readUnsigned
  rw [readNumeral_toDigits n hrest]
  simp only [ofNumeral_toDigits h]

/-- A number begins with a digit. -/
theorem exists_toDigits_eq_cons (n : Nat) :
    ∃ c digits, Nat.toDigits 10 n = c :: digits ∧ c.isDigit := by
  obtain ⟨c, digits, heq⟩ := List.exists_cons_of_ne_nil (Nat.toDigits_ne_nil (b := 10) (n := n))
  exact ⟨c, digits, heq, Digits.isDigit_of_mem_toDigits (heq ▸ List.mem_cons_self)⟩

/-- The digits of a number are read without a sign. -/
theorem read_toDigits (h : n ≤ maxSignificand) (hrest : Behind rest) :
    read (Nat.toDigits 10 n ++ rest) = .ok (.natural n, rest) := by
  have hread := readUnsigned_toDigits h hrest
  obtain ⟨c, digits, heq, hc⟩ := exists_toDigits_eq_cons n
  rw [heq, List.cons_append] at hread ⊢
  rw [read.eq_def]
  split
  next heq' =>
    cases heq'
    cases hc
  next => exact hread

end Number

/-- A digit is no blank. -/
theorem not_isBlank_of_isDigit {c : Char} (hc : c.isDigit) : isBlank c = false := by
  rw [Bool.eq_false_iff]
  intro hblank
  simp only [isBlank, Bool.or_eq_true, beq_iff_eq] at hblank
  rcases hblank with ((rfl | rfl) | rfl) | rfl <;> cases hc

/-- A natural number is read where a number begins that is one and small enough. -/
theorem read_natural_iff {size n : Nat} {expected : String} {s rest : Rest} :
    (naturalReader size expected).read s = .ok (n, rest) ↔
      (dropBlanks s).head?.any Number.startsHere ∧
        Number.read (dropBlanks s) = .ok (.natural n, rest) ∧ n < size := by
  simp only [naturalReader]
  cases (dropBlanks s).head?.any Number.startsHere with
  | false => simp
  | true =>
    cases hread : Number.read (dropBlanks s) with
    | error e => simp
    | ok found =>
      obtain ⟨number, rest'⟩ := found
      cases number with
      | natural value =>
        by_cases hvalue : value < size
        · have hlt : value = n → rest' = rest → n < size := fun h _ => h ▸ hvalue
          simpa [toNatural, hvalue] using hlt
        · have hge : value = n → rest' = rest → size ≤ n := fun h _ => h ▸ Nat.le_of_not_lt hvalue
          simpa [toNatural, hvalue] using hge
      | negative value => simp [toNatural]
      | decimal value => simp [toNatural]

/-- A number that is small enough is read back. -/
theorem reads_natural {size n : Nat} (expected : String) (h : n < size)
    (hfits : n ≤ Number.maxSignificand) :
    Reads (naturalReader size expected) (Nat.repr n).toList n := by
  obtain ⟨c, digits, heq, hc⟩ := Number.exists_toDigits_eq_cons n
  have hblank := not_isBlank_of_isDigit hc
  have hclose : c ≠ ']' := by
    rintro rfl
    cases hc
  rw [Nat.toList_repr]
  refine ⟨⟨c, digits, heq, hblank, hclose⟩, fun rest hrest => ?_⟩
  have hread := Number.read_toDigits hfits hrest
  have hstarts : Number.startsHere c = true := by
    rw [Number.startsHere, Number.isDigit_eq, hc, Bool.or_true]
  rw [heq, List.cons_append] at hread ⊢
  rw [read_natural_iff, dropBlanks_cons hblank]
  exact ⟨hstarts, hread, h⟩

/-- A number of 64 bits is read back. -/
theorem reads_uint64 (n : UInt64) : Reads uint64Reader (Nat.repr n.toNat).toList n :=
  (reads_natural "u64" n.toNat_lt (Nat.le_pred_of_lt n.toNat_lt)).map_eq UInt64.ofNat_toNat

end PosDictionary.Json
