import PosDictionary.Json.Schema
import PosDictionary.Json.Shape

/-!
# Texts of values

A value is written without blanks between its parts, and read from any text of it. Lists and objects
are read only so deep.
-/

namespace PosDictionary.Json

/-- The members of an object stand between braces. -/
def braces : Enclosure where
  opening := '{'
  closing := '}'
  title := "a map"
  next := Schema.nextKey
  length_next h := Nat.le_of_lt (Schema.length_nextKey h)
  next_closing first rest := by simp [Schema.nextKey, dropBlanks, isBlank]

/-! ## Writing -/

/-- A member of an object. -/
def member (name : String) (value : List Char) : List Char :=
  Text.write name ++ [':'] ++ value

/-- Parts with a comma between them. -/
def separated (parts : List (List Char)) : List Char :=
  (parts.intersperse [',']).flatten

/-- Parts between their marks. -/
def Enclosure.write (e : Enclosure) (parts : List (List Char)) : List Char :=
  [e.opening] ++ separated parts ++ [e.closing]

mutual

/-- A value as it is written. -/
def Value.write : Value → List Char
  | .string value => Text.write value
  | .number value => (Nat.repr value.toNat).toList
  | .list items => brackets.write (writeItems items)
  | .object members => braces.write (writeMembers members)

/-- The items of a list as they are written. -/
def writeItems : List Value → List (List Char)
  | [] => []
  | v :: items => v.write :: writeItems items

/-- The members of an object as they are written. -/
def writeMembers : List (String × Value) → List (List Char)
  | [] => []
  | (name, v) :: members => member name v.write :: writeMembers members

end

/-- The text of a value. -/
def Value.text (v : Value) : String := String.ofList v.write

/-! ## Reading -/

/-- Reads a member behind the first quote of its name. -/
def memberReader {α : Type} (value : Reader α) : Reader (String × α) where
  read s :=
    match Text.read s with
    | .error e => .error e
    | .ok (name, rest) =>
      match readColon rest with
      | .error e => .error e
      | .ok rest =>
        match value.read rest with
        | .error e => .error e
        | .ok (a, rest) => .ok ((name, a), rest)
  progress := by
    intro s m rest h
    split at h
    · simp at h
    · next hname =>
      split at h
      · simp at h
      · next hcolon =>
        split at h
        · simp at h
        · next hvalue =>
          simp only [Except.ok.injEq, Prod.mk.injEq] at h
          obtain ⟨-, rfl⟩ := h
          have := Text.length_read hname
          have := length_readColon hcolon
          have := value.progress hvalue
          omega

/-- Reads an object, of which the members have values that are read so. -/
def objectReader {α : Type} (value : Reader α) : Reader (List (String × α)) :=
  braces.reader (memberReader value)

/-- The reader that is chosen by the first character behind the blanks. -/
def Reader.byHead {α : Type} (choose : Option Char → Reader α) : Reader α where
  read s := (choose (dropBlanks s).head?).read s
  progress h := (choose _).progress h

/-- The reader of a value that begins with this character and is neither list nor object. -/
def scalarReader (first : Option Char) : Reader Value :=
  if first = some '"' then stringReader.map .string else uint64Reader.map .number

/-- Reads a value with lists and objects nested in it at most so deep. -/
def valueReader : Nat → Reader Value
  | 0 => .byHead scalarReader
  | depth + 1 => .byHead fun first =>
    if first = some '[' then (listReader (valueReader depth)).map .list
    else if first = some '{' then (objectReader (valueReader depth)).map .object
    else scalarReader first

end PosDictionary.Json
