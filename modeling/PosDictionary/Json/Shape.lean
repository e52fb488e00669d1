/-!
# Data in JSON

Data is declared by its `Shape`: a string, a number of 16 bits, a list, or a record with named
fields, of which some have a default. Which value stands for the data follows from the shape,
`valueOf`. Texts are the matter of a `Library`: it knows the texts of values, and writes and reads
data of every shape.
-/

namespace PosDictionary.Json

/-! ## Values -/

/-- A JSON value. The members of an object have an order, that of their text. -/
inductive Value where
  | string (value : String)
  | number (value : UInt64)
  | list (items : List Value)
  | object (members : List (String × Value))

/-- Lists and objects are nested in the value at most so deep. -/
inductive Value.NestedWithin : Nat → Value → Prop where
  | string (depth : Nat) (value : String) : NestedWithin depth (.string value)
  | number (depth : Nat) (value : UInt64) : NestedWithin depth (.number value)
  | list {depth : Nat} {items : List Value} :
    (∀ v ∈ items, NestedWithin depth v) → NestedWithin (depth + 1) (.list items)
  | object {depth : Nat} {members : List (String × Value)} :
    (∀ m ∈ members, NestedWithin depth m.2) → NestedWithin (depth + 1) (.object members)

/-! ## Shapes -/

mutual

/-- How data is declared. -/
inductive Shape : Type → Type 1 where
  /-- A string. -/
  | string : Shape String
  /-- A number of 16 bits. -/
  | uint16 : Shape UInt16
  /-- A list, of which every item has the same shape. -/
  | list {α : Type} (item : Shape α) : Shape (List α)
  /-- A record that is made of its fields, and can be taken apart into these. -/
  | record {names : List String} {α β : Type} (name : String) (fields : Fields names β)
      (make : β → α) (parts : α → β) (make_parts : ∀ a, make (parts a) = a) : Shape α

/-- The fields of a record in the order in which they are declared. They have different names. -/
inductive Fields : List String → Type → Type 1 where
  /-- No fields. -/
  | nil : Fields [] Unit
  /-- A field, perhaps with a default for when it is absent, and those behind it. -/
  | cons {names : List String} {α β : Type} (name : String) (isNew : name ∉ names)
      (default : Option α) (shape : Shape α) (rest : Fields names β) :
      Fields (name :: names) (α × β)

end

mutual

/-- How deep lists and records are nested in data of this shape. -/
def Shape.depth {α : Type} : Shape α → Nat
  | .string => 0
  | .uint16 => 0
  | .list item => item.depth + 1
  | .record _ fields _ _ _ => fields.depth + 1

/-- How deep lists and records are nested in these fields. -/
def Fields.depth {names : List String} {β : Type} : Fields names β → Nat
  | .nil => 0
  | .cons _ _ _ shape rest => max shape.depth rest.depth

end

mutual

/-- The value that stands for the data: a record is an object with all its fields. -/
def Shape.valueOf {α : Type} : Shape α → α → Value
  | .string, text => .string text
  | .uint16, n => .number n.toUInt64
  | .list item, items => .list (items.map item.valueOf)
  | .record _ fields _ parts _, a => .object (fields.membersOf (parts a))

/-- The members that stand for the fields, in the order in which these are declared. -/
def Fields.membersOf {names : List String} {β : Type} : Fields names β → β → List (String × Value)
  | .nil, _ => []
  | .cons name _ _ shape rest, (a, b) => (name, shape.valueOf a) :: rest.membersOf b

end

/-! ## Libraries -/

/-- How deep lists and objects may be nested in a text. -/
def nestingLimit : Nat := 127

/-- A library for JSON. -/
structure Library where
  /-- Why data is not written, or a text is not read. -/
  Refusal : Type
  /-- The text of a value. -/
  print : Value → String
  /-- The value of a text. -/
  parse : String → Except Refusal Value
  /-- Writes data of the shape. -/
  write : {α : Type} → Shape α → α → Except Refusal String
  /-- Reads data of the shape from a text. -/
  read : {α : Type} → Shape α → String → Except Refusal α

end PosDictionary.Json
