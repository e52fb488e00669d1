import PosDictionary.Json.Primitive
import PosDictionary.Proofs.Json.Strings

/-!
# Values that are read back

`Reads` says that a text stands for a value: the reader takes the text wherever it stands, gives the
value and leaves what follows. What may follow is known, `Behind`, since a number goes on as long as
there are digits.
-/

namespace PosDictionary.Json

/-- What may stand behind a value: nothing, or the mark with which a list or an object goes on or
ends. -/
def Behind (rest : Rest) : Prop := ∀ c ∈ rest.head?, c = ',' ∨ c = ']' ∨ c = '}'

/-- Nothing may stand behind a value. -/
theorem behind_nil : Behind [] := by simp [Behind]

/-- A mark may stand behind a value. -/
theorem behind_cons {c : Char} (h : c = ',' ∨ c = ']' ∨ c = '}') (rest : Rest) :
    Behind (c :: rest) := by
  simpa [Behind] using h

/-- The reader takes the text for the value. -/
structure Reads {α : Type} (reader : Reader α) (text : List Char) (a : α) : Prop where
  /-- The text is not taken for the space before a value, or for the end of a list. -/
  starts : ∃ c s, text = c :: s ∧ isBlank c = false ∧ c ≠ ']'
  /-- Wherever the text stands, it is read. -/
  read_append : ∀ rest, Behind rest → reader.read (text ++ rest) = .ok (a, rest)

variable {α β : Type} {reader : Reader α} {text : List Char} {a : α}

/-- Blanks are dropped up to the first character that is none. -/
theorem dropBlanks_cons {c : Char} (h : isBlank c = false) (s : Rest) :
    dropBlanks (c :: s) = c :: s := by
  simp [dropBlanks, h]

/-- A text also stands for what is made of its value. -/
theorem Reads.map_eq (h : Reads reader text a) {f : α → β} {b : β} (hb : f a = b) :
    Reads (reader.map f) text b where
  starts := h.starts
  read_append rest hrest := by
    simp only [Reader.map]
    rw [h.read_append rest hrest]
    simp only [hb]

/-- A text that stands for a value is read as a whole. -/
theorem Reads.readAll_eq (h : Reads reader text a) :
    reader.readAll (String.ofList text) = .ok a := by
  have hread := h.read_append [] behind_nil
  rw [List.append_nil] at hread
  unfold Reader.readAll
  rw [String.toList_ofList, hread]
  rfl

/-- A string is read back. -/
theorem reads_string (s : String) : Reads stringReader (Text.write s) s where
  starts := ⟨'"', _, rfl, rfl, by decide⟩
  read_append rest _ := by
    simp only [stringReader]
    rw [Text.write_append, dropBlanks_cons rfl]
    exact Text.read_write s rest

end PosDictionary.Json
