/-!
# The byte order of texts

Texts are compared by their UTF-8 bytes, so that a text sorts where a reader of raw bytes would
put it. The bytes of a text determine it, so the order is total on texts.
-/

namespace PosDictionary.Text

/-- The UTF-8 bytes of a text, its ordering key. -/
def bytes (s : String) : List UInt8 :=
  s.toUTF8.data.toList

/-- Equal bytes, equal texts. -/
theorem bytes_inj {s t : String} : bytes s = bytes t ↔ s = t := by
  constructor
  · intro h
    apply String.toByteArray_inj.mp
    exact ByteArray.ext (Array.toList_inj.mp h)
  · rintro rfl
    rfl

/-- Of two texts, the one whose bytes come first is the smaller. -/
def Before (s t : String) : Prop := bytes s < bytes t

instance : DecidableRel Before := fun s t => inferInstanceAs (Decidable (bytes s < bytes t))

/-- The texts in ascending byte order. Each key is computed once. -/
def sorted (texts : List String) : List String :=
  let keyed := texts.map fun s => (bytes s, s)
  (keyed.mergeSort fun a b => decide (a.1 ≤ b.1)).map (·.2)

/-- The texts are strictly ascending: each comes before its successor. -/
def isAscending : List String → Bool
  | [] => true
  | [_] => true
  | s :: t :: rest => decide (Before s t) && isAscending (t :: rest)

end PosDictionary.Text
