import PosDictionary.Json.ReadError

/-!
# Readers

A `Reader` reads a value from the beginning of a text and leaves the rest. It takes at least one
character whenever it succeeds, so reading one value after the other comes to an end.
-/

namespace PosDictionary.Json

/-- What is left of a text after a part of it was read. -/
abbrev Rest := List Char

/-- A way to read an `α` from the beginning of a text. -/
structure Reader (α : Type) where
  /-- Reads a value: the value and what is left behind it. -/
  read : Rest → Except ReadError (α × Rest)
  /-- Something was read. -/
  progress : ∀ {s a rest}, read s = .ok (a, rest) → rest.length < s.length

/-- The reader that changes what another one has read. -/
def Reader.map {α β : Type} (f : α → β) (reader : Reader α) : Reader β where
  read s :=
    match reader.read s with
    | .ok (a, rest) => .ok (f a, rest)
    | .error e => .error e
  progress := by
    intro s b rest h
    split at h
    · next hr =>
      simp only [Except.ok.injEq, Prod.mk.injEq] at h
      obtain ⟨-, rfl⟩ := h
      exact reader.progress hr
    · simp at h

/-! ## Blanks, words and marks -/

/-- The characters that may stand between the parts of a text. -/
def isBlank (c : Char) : Bool := c == ' ' || c == '\n' || c == '\t' || c == '\r'

/-- The text without the blanks at its beginning. -/
def dropBlanks (s : Rest) : Rest := s.dropWhile isBlank

/-- What is left without blanks is not longer. -/
theorem length_dropBlanks_le (s : Rest) : (dropBlanks s).length ≤ s.length :=
  (List.dropWhile_sublist _).length_le

/-- What stands behind the first character that is not blank is shorter. -/
theorem length_of_dropBlanks {s rest : Rest} {c : Char} (h : dropBlanks s = c :: rest) :
    rest.length < s.length := by
  have := length_dropBlanks_le s
  rw [h, List.length_cons] at this
  omega

/-- Reads the rest of a word; `word` is what has to follow. -/
def readWord : List Char → Rest → Except ReadError Rest
  | [], s => .ok s
  | _ :: _, [] => .error .cutShort
  | w :: word, c :: rest => if c = w then readWord word rest else .error .malformed

/-- A word takes as many characters as it has. -/
theorem length_readWord {word : List Char} {s rest : Rest} (h : readWord word s = .ok rest) :
    rest.length + word.length = s.length := by
  fun_induction readWord word s with
  | case1 s => simp_all
  | case2 => simp at h
  | case3 word c rest' ih =>
    have := ih h
    simp only [List.length_cons]
    omega
  | case4 => simp at h

/-- Reads a colon and the blanks before it. -/
def readColon (s : Rest) : Except ReadError Rest :=
  match dropBlanks s with
  | [] => .error .cutShort
  | c :: rest => if c = ':' then .ok rest else .error .malformed

/-- A colon takes a character. -/
theorem length_readColon {s rest : Rest} (h : readColon s = .ok rest) :
    rest.length < s.length := by
  unfold readColon at h
  split at h
  · simp at h
  · next hs =>
    split at h
    · simp only [Except.ok.injEq] at h
      subst h
      exact length_of_dropBlanks hs
    · simp at h

end PosDictionary.Json
