import PosDictionary.Json.Number
import PosDictionary.Json.Text

/-!
# Strings, numbers and lists of a given type

A text is read as the type that is asked for, from left to right, and the first thing that does
not fit is the error. Something of another type is named in it, and is read for that purpose unless
it is a list or an object; it may turn out to be malformed.
-/

namespace PosDictionary.Json

/-! ## Something else -/

/-- What stands at the beginning of a text. -/
def foundAt (s : Rest) : Except ReadError Found :=
  match s with
  | [] => .error .cutShort
  | 'n' :: rest => (fun _ => .null) <$> readWord ['u', 'l', 'l'] rest
  | 't' :: rest => (fun _ => .boolean true) <$> readWord ['r', 'u', 'e'] rest
  | 'f' :: rest => (fun _ => .boolean false) <$> readWord ['a', 'l', 's', 'e'] rest
  | '"' :: rest => (fun read => .string read.1) <$> Text.read rest
  | '[' :: _ => .ok .sequence
  | '{' :: _ => .ok .map
  | c :: rest =>
    if Number.startsHere c then (fun read => read.1.found) <$> Number.read (c :: rest)
    else .error .malformed

/-- The error for a text that does not begin with what was `expected`. -/
def wrongType (expected : String) (s : Rest) : ReadError :=
  match foundAt s with
  | .ok found => .mismatch (.wrongType found expected)
  | .error e => e

/-! ## Strings -/

/-- Reads a string. -/
def stringReader : Reader String where
  read s :=
    match dropBlanks s with
    | '"' :: rest => Text.read rest
    | other => .error (wrongType "a string" other)
  progress := by
    intro s text rest h
    split at h
    · next hs =>
      have := length_of_dropBlanks hs
      have := Text.length_read h
      omega
    · simp at h

/-! ## Natural numbers -/

/-- A number as one below `size`, which is what is expected. -/
def toNatural (size : Nat) (expected : String) (n : Number) : Except ReadError Nat :=
  match n with
  | .natural value =>
    if value < size then .ok value else .error (.mismatch (.wrongValue n.found expected))
  | .negative _ => .error (.mismatch (.wrongValue n.found expected))
  | .decimal _ => .error (.mismatch (.wrongType n.found expected))

/-- Reads a natural number below `size`. -/
def naturalReader (size : Nat) (expected : String) : Reader Nat where
  read s :=
    let s := dropBlanks s
    if s.head?.any Number.startsHere then
      match Number.read s with
      | .error e => .error e
      | .ok (n, rest) =>
        match toNatural size expected n with
        | .error e => .error e
        | .ok value => .ok (value, rest)
    else
      .error (wrongType expected s)
  progress := by
    intro s value rest h
    have := length_dropBlanks_le s
    dsimp only at h
    split at h
    · split at h
      · simp at h
      · next hn =>
        split at h
        · simp at h
        · simp only [Except.ok.injEq, Prod.mk.injEq] at h
          obtain ⟨-, rfl⟩ := h
          have := Number.length_read hn
          omega
    · simp at h

/-- Reads a number of 16 bits. -/
def uint16Reader : Reader UInt16 := (naturalReader UInt16.size "u16").map UInt16.ofNat

/-- Reads a number of 64 bits. -/
def uint64Reader : Reader UInt64 := (naturalReader UInt64.size "u64").map UInt64.ofNat

/-! ## Marks -/

/-- Reads the character that ends a list or an object. -/
def readClose (close : Char) (s : Rest) : Except ReadError Rest :=
  match dropBlanks s with
  | [] => .error .cutShort
  | c :: rest => if c = close then .ok rest else .error .malformed

/-- The end of a list or an object takes a character. -/
theorem length_readClose {close : Char} {s rest : Rest} (h : readClose close s = .ok rest) :
    rest.length < s.length := by
  unfold readClose at h
  split at h
  · simp at h
  · next hs =>
    split at h
    · simp only [Except.ok.injEq] at h
      subst h
      exact length_of_dropBlanks hs
    · simp at h

/-- Looks for the next item of a list: the place where it begins, or none if the list ends here. A
comma stands before every item but the `first`. -/
def nextItem (first : Bool) (s : Rest) : Except ReadError (Option Rest) :=
  match dropBlanks s with
  | [] => .error .cutShort
  | c :: rest =>
    if c = ']' then
      .ok none
    else if first then
      .ok (some (c :: rest))
    else if c = ',' then
      match dropBlanks rest with
      | [] => .error .cutShort
      | d :: rest => if d = ']' then .error .malformed else .ok (some (d :: rest))
    else
      .error .malformed

/-- An item begins at the earliest where it is looked for. -/
theorem length_nextItem {first : Bool} {s place : Rest} (h : nextItem first s = .ok (some place)) :
    place.length ≤ s.length := by
  unfold nextItem at h
  have hle := length_dropBlanks_le s
  split at h
  · simp at h
  · next c rest hs =>
    rw [hs] at hle
    split at h
    · simp at h
    · split at h
      · simp only [Except.ok.injEq, Option.some.injEq] at h
        subst h
        exact hle
      · split at h
        · have hr := length_dropBlanks_le rest
          split at h
          · simp at h
          · next hd =>
            rw [hd] at hr
            split at h
            · simp at h
            · simp only [Except.ok.injEq, Option.some.injEq] at h
              subst h
              simp only [List.length_cons] at hle hr ⊢
              omega
        · simp at h

/-! ## Parts between marks -/

/-- How the parts of a list or of an object are enclosed. -/
structure Enclosure where
  /-- The mark in front of the first part. -/
  opening : Char
  /-- The mark behind the last part. -/
  closing : Char
  /-- What is said to be expected where the opening mark is missing. -/
  title : String
  /-- Looks for the next part: the place where it begins, or none if the parts end here. A comma
  stands before every part but the `first`. -/
  next : (first : Bool) → Rest → Except ReadError (Option Rest)
  /-- A part begins at the earliest where it is looked for. -/
  length_next : ∀ {first s place}, next first s = .ok (some place) → place.length ≤ s.length
  /-- The parts end at the closing mark. -/
  next_closing : ∀ first rest, next first (closing :: rest) = .ok none

namespace Enclosure

variable {α : Type} {e : Enclosure} {part : Reader α} {seen : Array α} {s rest : Rest}

/-- Reads the parts behind those `seen`, and the closing mark. -/
def readParts (e : Enclosure) (part : Reader α) (seen : Array α) (s : Rest) :
    Except ReadError (List α × Rest) :=
  match _h : e.next seen.isEmpty s with
  | .error e => .error e
  | .ok none => (seen.toList, ·) <$> readClose e.closing s
  | .ok (some place) =>
    match _h' : part.read place with
    | .error e => .error e
    | .ok (a, rest) => readParts e part (seen.push a) rest
termination_by s.length
decreasing_by
  have := e.length_next _h
  have := part.progress _h'
  omega

/-- The parts take characters, the closing mark at least. -/
theorem length_readParts {parts : List α} (h : e.readParts part seen s = .ok (parts, rest)) :
    rest.length < s.length := by
  fun_induction readParts e part seen s with
  | case1 => simp at h
  | case2 seen s hn =>
    cases hc : readClose e.closing s with
    | error e => simp [hc, Functor.map, Except.map] at h
    | ok after =>
      simp only [hc, Functor.map, Except.map, Except.ok.injEq, Prod.mk.injEq] at h
      obtain ⟨-, rfl⟩ := h
      exact length_readClose hc
  | case3 => simp at h
  | case4 seen s place hn a after ha ih =>
    have := ih h
    have := e.length_next hn
    have := part.progress ha
    omega

/-- Reads parts between their marks. -/
def reader (e : Enclosure) (part : Reader α) : Reader (List α) where
  read s :=
    match dropBlanks s with
    | [] => .error (wrongType e.title [])
    | c :: rest =>
      if c = e.opening then e.readParts part #[] rest else .error (wrongType e.title (c :: rest))
  progress := by
    intro s parts rest h
    split at h
    · simp at h
    · next hs =>
      split at h
      · have := length_of_dropBlanks hs
        have := length_readParts h
        omega
      · simp at h

end Enclosure

/-! ## Lists -/

/-- The items of a list stand between brackets. -/
def brackets : Enclosure where
  opening := '['
  closing := ']'
  title := "a sequence"
  next := nextItem
  length_next := length_nextItem
  next_closing first rest := by simp [nextItem, dropBlanks, isBlank]

/-- Reads a list. -/
def listReader {α : Type} (item : Reader α) : Reader (List α) := brackets.reader item

/-! ## Whole texts -/

/-- Reads a whole text: only blanks may follow its value. -/
def Reader.readAll {α : Type} (reader : Reader α) (text : String) : Except ReadError α :=
  match reader.read text.toList with
  | .error e => .error e
  | .ok (a, rest) => if (dropBlanks rest).isEmpty then .ok a else .error .malformed

end PosDictionary.Json
