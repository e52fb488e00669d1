import PosDictionary.Definition.Basic
import PosDictionary.Fault
import PosDictionary.Sample.Random

/-!
# Sample definitions and stems

Definitions of POS and stems for trying out dictionaries, made from the numbers of a `Source`. The
same seed gives the same sample. The suffixes are short and may be empty, and the written form
mostly takes the suffix of the reading. `posSet` and `stems` take the numbers of `Random`.
-/

namespace PosDictionary.Sample

/-- The characters of readings and suffixes. -/
def kana : Array Char := #[
  'あ', 'い', 'う', 'え', 'お', 'か', 'き', 'く', 'け', 'こ', 'さ', 'し', 'す', 'せ', 'そ', 'た',
  'ち', 'つ', 'て', 'と', 'な', 'に', 'ぬ', 'ね', 'の', 'ま', 'み', 'む', 'め', 'も', 'る', 'れ',
  'わ', 'ん']

/-- Runs `make` for the numbers below `count` in turn and gathers the results. -/
def gather {σ α : Type} (make : Nat → σ → α × σ) (count : Nat) (state : σ) : Array α × σ :=
  (List.range count).foldl
    (fun (made, state) i =>
      let (a, state) := make i state
      (made.push a, state))
    (#[], state)

/-- The name of the POS with number `i`: the number has at least four digits. -/
def posName (i : Nat) : String :=
  let digits := (Nat.repr i).toList
  "品詞" ++ String.ofList (List.replicate (4 - digits.length) '0' ++ digits)

namespace Source

variable (source : Source)

/-- A character of `kana`. -/
def kanaChar (state : source.State) : Char × source.State :=
  let (place, state) := source.between 0 kana.size state
  (kana.getD place 'あ', state)

/-- Characters of `kana`, at least `least` of them and less than `bound`. -/
def kanaString (least bound : Nat) (state : source.State) : String × source.State :=
  let (count, state) := source.between least bound state
  let (chars, state) := gather (fun _ => source.kanaChar) count state
  (String.ofList chars.toList, state)

/-- What a written form takes instead of `suffix`: three times out of four the same, else characters
by chance. -/
def writtenSuffix (suffix : String) (state : source.State) : String × source.State :=
  let (chance, state) := source.betweenSmall 0 4 state
  if chance = 0 then source.kanaString 0 3 state else (suffix, state)

/-- A form. Its two suffixes are mostly the same. -/
def form (state : source.State) : ConjugationForm × source.State :=
  let (keySuffix, state) := source.kanaString 0 3 state
  let (valueSuffix, state) := source.writtenSuffix keySuffix state
  let (conjugationId, state) := source.next16 state
  (⟨keySuffix, valueSuffix, conjugationId⟩, state)

/-- At least one form and at most `maxForms`. -/
def forms (maxForms : Nat) (state : source.State) : List ConjugationForm × source.State :=
  let (count, state) := source.between 1 (maxForms + 1) state
  let (forms, state) := gather (fun _ => source.form) count state
  (forms.toList, state)

/-- The POS with number `i`. -/
def pos (maxForms i : Nat) (state : source.State) : PosDefinition × source.State :=
  let (forms, state) := source.forms maxForms state
  (⟨posName i, forms⟩, state)

/-- `count` definitions of POS in no particular order, each with at most `maxForms` forms. -/
def posSet (seed : UInt64) (count maxForms : Nat) : Except Fault (List PosDefinition) :=
  if maxForms = 0 then
    .error .noFormsAllowed
  else
    let (set, state) := gather (source.pos maxForms) count (source.seeded seed)
    .ok (source.shuffle set state).1.toList

/-- `count` stems of one to four characters. -/
def stems (seed : UInt64) (count : Nat) : List String :=
  (gather (fun _ => source.kanaString 1 5) count (source.seeded seed)).1.toList

end Source

/-- A sample of definitions, made from the numbers of `Random`. -/
def posSet (seed : UInt64) (count maxForms : Nat) : Except Fault (List PosDefinition) :=
  Random.source.posSet seed count maxForms

/-- A sample of stems, made from the numbers of `Random`. -/
def stems (seed : UInt64) (count : Nat) : List String :=
  Random.source.stems seed count

end PosDictionary.Sample
