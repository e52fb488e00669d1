import PosDictionary.Json.Schema
import PosDictionary.Json.ValueText

/-!
# JSON from left to right

A library that reads data from a text without making a value of it: every shape has a reader of its
own, and that of a record is the one of its schema.
-/

namespace PosDictionary.Json

/-! ## Fields -/

namespace Fields

/-- What has been read of the fields. -/
def Seen {names : List String} {β : Type} : Fields names β → Type
  | .nil => Unit
  | @Fields.cons _ α _ _ _ _ _ rest => Option α × rest.Seen

/-- Nothing has been read. -/
def noneSeen {names : List String} {β : Type} : (fields : Fields names β) → fields.Seen
  | .nil => ()
  | .cons _ _ _ _ rest => (none, rest.noneSeen)

/-- The fields, each as it was read or else its default, or the name of the first one that has
neither. -/
def build {names : List String} {β : Type} :
    (fields : Fields names β) → fields.Seen → Except String β
  | .nil, _ => .ok ()
  | .cons name _ default _ rest, seen =>
    match seen.1 <|> default with
    | none => .error name
    | some a => (a, ·) <$> rest.build seen.2

end Fields

/-- A field of a record that has another field in front. -/
def Field.behind {σ : Type} (τ : Type) (field : Field σ) : Field (τ × σ) where
  name := field.name
  isRead := fun parts => field.isRead parts.2
  reader := fun parts => (field.reader parts.2).map fun rest => (parts.1, rest)

/-! ## Shapes -/

mutual

/-- Reads data of this shape. -/
def Shape.reader {α : Type} : Shape α → Reader α
  | .string => stringReader
  | .uint16 => uint16Reader
  | .list item => listReader item.reader
  | .record name fields make _ _ =>
    Schema.reader
      { title := "struct " ++ name
        fields := fields.entries
        start := fields.noneSeen
        build := fun seen => make <$> fields.build seen }

/-- How each of the fields is read. -/
def Fields.entries {names : List String} {β : Type} :
    (fields : Fields names β) → List (Field fields.Seen)
  | .nil => []
  | .cons name _ _ shape rest =>
    { name := name
      isRead := fun seen => seen.1.isSome
      reader := fun seen => shape.reader.map fun a => (some a, seen.2) } ::
      rest.entries.map (Field.behind _)

end

/-! ## The library -/

/-- The library that reads from left to right. -/
def streamed : Library where
  Refusal := ReadError
  print := Value.text
  parse := (valueReader nestingLimit).readAll
  write shape a := .ok (shape.valueOf a).text
  read shape := shape.reader.readAll

end PosDictionary.Json
