import PosDictionary.Event
import PosDictionary.Fault

/-!
# Dictionaries of inflected forms

What the rest of a converter asks of a dictionary: which POS there are, and which tokens a stem
has when it is inflected as a POS. Anything that answers these questions is a `Dictionary`. A POS
that is not known is an ordinary answer, never an error.
-/

namespace PosDictionary

/-- An inflected form of a stem. -/
structure Token where
  /-- The reading: the reading of the stem and the suffix of the form. -/
  key : String
  /-- The written form: that of the stem and the suffix of the form. -/
  value : String
  /-- The POS of the stem. -/
  posId : UInt16
  /-- The conjugation of the form. -/
  conjugationId : UInt16
deriving DecidableEq, Repr

/-- The token of an empty stem. -/
def Token.blank : Token := ⟨"", "", 0, 0⟩

/-- The parts of a token. -/
def Token.describe (t : Token) : String :=
  Text.structured "Token"
    [("key", Text.quoted t.key), ("value", Text.quoted t.value), ("pos_id", s!"{t.posId}"),
      ("conjugation_id", s!"{t.conjugationId}")]

/-- The capability of a dictionary. -/
class Dictionary (δ : Type) where
  /-- The names of the POS that have at least one form, in ascending order of their ids. -/
  posList : δ → Except Fault (List String)
  /-- The id of the POS of a name. -/
  posId : δ → String → Except Fault (Option UInt16)
  /-- The name is that of a POS. -/
  isValidPos : δ → String → Except Fault Bool := fun d pos => return (← posId d pos).isSome
  /-- The tokens of the stem with reading `key` and written form `value`, one for each form of
  the POS, behind the tokens `out`. An unknown POS answers false and leaves `out` as it is. -/
  getTokens : δ → (key value pos : String) → (out : Array Token) →
    Traced Fault (Bool × Array Token)

end PosDictionary
