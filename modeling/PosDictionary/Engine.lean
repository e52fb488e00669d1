import PosDictionary.Dictionary
import PosDictionary.PosIndex.Basic
import PosDictionary.Segments

/-!
# The engine

The dictionary over stored data. `Engine.ofBytes` judges the data once: the string table, the size
of the records, the string indices of the records, and their order. After that every query is a
pair of searches, one for the name of the POS and one for its records.
-/

namespace PosDictionary

/-- A dictionary over stored data. -/
structure Engine where
  /-- The names of the POS and the suffixes of their forms. -/
  strings : StringTable
  /-- The forms, in the order of their POS. -/
  tokens : TokenArray

namespace Engine

/-- The POS of the dictionary. -/
def posIndex (e : Engine) : PosIndex := ⟨e.strings, e.tokens⟩

/-! ## Opening -/

/-- Accepts stored data as a dictionary, or refuses it for the first rule that it breaks. -/
def accept (tokenArray stringArray : Bytes) : Except Failure Engine := do
  let strings ← StringTable.ofBytes stringArray
  let tokens ← Failure.ofError (TokenArray.ofBytes tokenArray)
  tokens.verifyStringIndices strings.len
  tokens.verifySorted
  return ⟨strings, tokens⟩

/-- Accepts stored data and reports what it holds. -/
def ofBytes (tokenArray stringArray : Bytes) : Traced Failure Engine := do
  let engine ← Traced.ofExcept (accept tokenArray stringArray)
  let ids ← Traced.ofExcept (Failure.ofFault engine.posIndex.distinctIds)
  Traced.emit (.loaded engine.tokens.len engine.strings.len ids.toList.length)
  return engine

/-- Accepts the data of a provider. -/
def ofProvider (provider : Provider) : Traced Failure Engine := do
  let data ← Traced.ofExcept (Failure.ofError provider)
  ofBytes data.tokenArray data.stringArray

/-! ## Queries -/

/-- The POS with at least one form, in ascending order of their ids. -/
def posEntries (e : Engine) : Except Fault (List PosEntry) := e.posIndex.entries

/-- The token that a record makes of a stem, for the POS `posId`. -/
def tokenOf (e : Engine) (key value : String) (posId : UInt16) (r : TokenRecord) :
    Except Fault Token := do
  let keySuffix ← e.strings.textAt r.keySuffixIndex.toNat
  let valueSuffix ← e.strings.textAt r.valueSuffixIndex.toNat
  return ⟨key ++ keySuffix, value ++ valueSuffix, posId, r.conjugationId⟩

/-- The tokens of a stem for the POS `posId`, one for each of its records. -/
def tokensOf (e : Engine) (key value : String) (posId : UInt16) : Except Fault (List Token) := do
  (← e.posIndex.records posId).toList.mapM (e.tokenOf key value posId)

instance : Dictionary Engine where
  posList e := return (← e.posEntries).map PosEntry.name
  posId e pos := e.posIndex.resolveId pos
  getTokens e key value pos out := do
    match ← Traced.ofExcept (e.posIndex.resolveId pos) with
    | none =>
      Traced.emit (.unknownPos pos)
      return (false, out)
    | some posId =>
      let tokens ← Traced.ofExcept (e.tokensOf key value posId)
      return (true, out.appendList tokens)

/-- The two pieces of the dictionary. -/
def describe (e : Engine) : String :=
  Text.structured "UserPos" [("strings", e.strings.describe), ("tokens", e.tokens.describe)]

end Engine

end PosDictionary
