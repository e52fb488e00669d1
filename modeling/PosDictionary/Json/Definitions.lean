import PosDictionary.Definition.Basic
import PosDictionary.Json.Streamed
import PosDictionary.UserEntry

/-!
# Definitions and entries in JSON

A form, a definition and an entry are records with their fields in the order in which they are
declared. When a form is read, a suffix that is absent is empty; every other field has to be there.
Any library can write and read them by their shapes; `toJson` and `ofJson` do so with `streamed`.
-/

namespace PosDictionary

open Json

/-! ## Forms -/

namespace ConjugationForm

/-- How a form is declared. -/
def shape : Shape ConjugationForm :=
  .record "ConjugationForm"
    (.cons "key_suffix" (by decide) (some "") .string
      (.cons "value_suffix" (by decide) (some "") .string
        (.cons "conjugation_id" (by decide) none .uint16 .nil)))
    (fun (keySuffix, valueSuffix, conjugationId, _) => ⟨keySuffix, valueSuffix, conjugationId⟩)
    (fun f => (f.keySuffix, f.valueSuffix, f.conjugationId, ()))
    (fun _ => rfl)

/-- The JSON text of a form. -/
def toJson (f : ConjugationForm) : String := (shape.valueOf f).text

/-- The form of a JSON text. -/
def ofJson (text : String) : Except ReadError ConjugationForm := streamed.read shape text

end ConjugationForm

/-! ## Definitions -/

namespace PosDefinition

/-- How a definition is declared. -/
def shape : Shape PosDefinition :=
  .record "PosDefinition"
    (.cons "name" (by decide) none .string
      (.cons "forms" (by decide) none (.list ConjugationForm.shape) .nil))
    (fun (name, forms, _) => ⟨name, forms⟩)
    (fun d => (d.name, d.forms, ()))
    (fun _ => rfl)

/-- The JSON text of a definition. -/
def toJson (d : PosDefinition) : String := (shape.valueOf d).text

/-- The definition of a JSON text. -/
def ofJson (text : String) : Except ReadError PosDefinition := streamed.read shape text

/-- The JSON text of several definitions. -/
def listToJson (ds : List PosDefinition) : String := (shape.list.valueOf ds).text

/-- The definitions of a JSON text. -/
def listOfJson (text : String) : Except ReadError (List PosDefinition) :=
  streamed.read shape.list text

end PosDefinition

/-! ## Entries -/

namespace UserEntry

/-- How an entry is declared. -/
def shape : Shape UserEntry :=
  .record "UserEntry"
    (.cons "key" (by decide) none .string
      (.cons "value" (by decide) none .string
        (.cons "pos" (by decide) none .string .nil)))
    (fun (key, value, pos, _) => ⟨key, value, pos⟩)
    (fun e => (e.key, e.value, e.pos, ()))
    (fun _ => rfl)

/-- The JSON text of an entry. -/
def toJson (e : UserEntry) : String := (shape.valueOf e).text

/-- The entry of a JSON text. -/
def ofJson (text : String) : Except ReadError UserEntry := streamed.read shape text

/-- The JSON text of several entries. -/
def listToJson (es : List UserEntry) : String := (shape.list.valueOf es).text

/-- The entries of a JSON text. -/
def listOfJson (text : String) : Except ReadError (List UserEntry) :=
  streamed.read shape.list text

end UserEntry

end PosDictionary
