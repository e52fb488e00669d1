import PosDictionary.Dictionary

/-!
# Expanding a user's vocabulary

Every entry of a vocabulary is looked up in a dictionary, and the tokens found are gathered in the
order of the entries. An entry without reading or written form is not looked up.
-/

namespace PosDictionary

/-- The entry has a stem that can be inflected. -/
def UserEntry.hasStem (e : UserEntry) : Bool := !(e.key.isEmpty || e.value.isEmpty)

/-- Looks up the entries in turn and appends their tokens to `out`. The number counts the entries
whose POS the dictionary knows, and each of the others is reported. -/
def expandEntries {δ : Type} [Dictionary δ] (d : δ) :
    List UserEntry → Array Token → Traced Fault (Nat × Array Token)
  | [], out => return (0, out)
  | entry :: rest, out => do
    if entry.hasStem then
      let (matched, out) ← Dictionary.getTokens d entry.key entry.value entry.pos out
      if matched then
        let (count, out) ← expandEntries d rest out
        return (count + 1, out)
      else
        Traced.emit (.unmatched entry)
        expandEntries d rest out
    else
      Traced.emit (.skipped entry)
      expandEntries d rest out

end PosDictionary
