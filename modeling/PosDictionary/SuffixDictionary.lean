import PosDictionary.Dictionary
import PosDictionary.Text.ByteOrder

/-!
# Dictionaries given by suffixes

A small dictionary that is written down directly: for each POS an id and the suffixes of its
forms, which are the same for reading and written form. The conjugation of a form is its place.
It is of use where stored data would be in the way. Unlike in stored data, a POS may have no forms.
-/

namespace PosDictionary

/-- A POS with an id and suffixes. -/
structure SuffixPos where
  /-- The name of the POS. -/
  name : String
  /-- The id of the POS. -/
  id : UInt16
  /-- The suffixes of its forms. -/
  suffixes : List String
deriving DecidableEq, Repr

/-- A dictionary in which a later POS replaces an earlier one of the same name. -/
structure SuffixDictionary where
  /-- The POS as they were given. -/
  given : List SuffixPos

namespace SuffixDictionary

/-- The POS of a name: the last one given. -/
def find? (d : SuffixDictionary) (name : String) : Option SuffixPos :=
  d.given.reverse.find? fun p => p.name == name

/-- The names, each once, in byte order. -/
def names (d : SuffixDictionary) : List String :=
  Text.sorted (d.given.map SuffixPos.name).eraseDups

/-- The tokens of a stem for a POS. -/
def tokensOf (key value : String) (p : SuffixPos) : List Token :=
  p.suffixes.zipIdx.map fun (suffix, i) =>
    ⟨key ++ suffix, value ++ suffix, p.id, UInt16.ofNat i⟩

instance : Dictionary SuffixDictionary where
  posList d := return d.names
  posId d name := return (d.find? name).map SuffixPos.id
  getTokens d key value name out :=
    match d.find? name with
    | none => return (false, out)
    | some p => return (true, out.appendList (tokensOf key value p))

end SuffixDictionary

end PosDictionary
