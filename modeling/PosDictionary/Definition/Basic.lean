import PosDictionary.Text.Quoted
import PosDictionary.Text.Structured

/-!
# Definitions of POS

A POS is defined by its name and its forms. A form says what is appended to the reading and to the
written form of a stem, and which conjugation that makes.
-/

namespace PosDictionary

/-- A form of a POS. -/
structure ConjugationForm where
  /-- What is appended to the reading of a stem. -/
  keySuffix : String
  /-- What is appended to the written form of a stem. -/
  valueSuffix : String
  /-- The conjugation that this makes. -/
  conjugationId : UInt16
deriving DecidableEq, Repr

/-- The parts of a form. -/
def ConjugationForm.describe (f : ConjugationForm) : String :=
  Text.structured "ConjugationForm"
    [("key_suffix", Text.quoted f.keySuffix), ("value_suffix", Text.quoted f.valueSuffix),
      ("conjugation_id", s!"{f.conjugationId}")]

/-- A POS with its forms, in the order in which tokens are made of them. -/
structure PosDefinition where
  /-- The name of the POS. -/
  name : String
  /-- The forms of the POS. -/
  forms : List ConjugationForm
deriving DecidableEq, Repr

/-- The parts of a definition. -/
def PosDefinition.describe (d : PosDefinition) : String :=
  Text.structured "PosDefinition"
    [("name", Text.quoted d.name),
      ("forms", Text.listed (d.forms.map ConjugationForm.describe))]

/-- The strings that a definition uses: its name and the suffixes of its forms. -/
def PosDefinition.strings (d : PosDefinition) : List String :=
  d.name :: d.forms.flatMap fun f => [f.keySuffix, f.valueSuffix]

end PosDictionary
