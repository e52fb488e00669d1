import PosDictionary.Proofs.ByteViews
import PosDictionary.Proofs.Rules
import PosDictionary.Proofs.Texts
import PosDictionary.StringTable.Violation

/-!
# The stored form of string tables

What bytes have to be in order to be a string table, said of the bytes alone. A table begins with
the number `count` of its strings, followed by an entry for each, which gives the `offset` and the
`size` of its `content`. `WellFormed` collects the conditions on them.

The same conditions, taken one by one and in the order in which they are judged, are the `rules` of
a table; `wellFormed_iff` says that a table is well-formed when it keeps them all.
-/

namespace PosDictionary.StringTable.Layout

open LittleEndian

variable (data : List UInt8)

/-! ## The parts of a table -/

/-- The number of strings. -/
def count : Nat := numberAt 4 data 0

/-- The place behind the entries. -/
def entriesEnd : Nat := 4 + 8 * count data

/-- Where the content of string `i` begins. -/
def offset (i : Nat) : Nat := numberAt 4 data (4 + 8 * i)

/-- The number of bytes of string `i`. -/
def size (i : Nat) : Nat := numberAt 4 data (8 + 8 * i)

/-- Where the content of string `i` ends. -/
def stop (i : Nat) : Nat := offset data i + size data i

/-- The bytes of string `i`. -/
def content (i : Nat) : List UInt8 := (data.drop (offset data i)).take (size data i)

/-- The bytes of all strings. -/
def contents : List (List UInt8) := (List.range (count data)).map (content data)

/-- The bytes are a string table. -/
structure WellFormed : Prop where
  /-- There is room for the number of strings. -/
  count_fits : 4 ≤ data.length
  /-- There is room for the entries. -/
  entries_fit : entriesEnd data ≤ data.length
  /-- Strings lie behind the entries. -/
  entriesEnd_le_offset : ∀ i < count data, entriesEnd data ≤ offset data i
  /-- Strings lie in the table, and so do the bytes behind them. -/
  stop_lt : ∀ i < count data, stop data i < data.length
  /-- Behind every string is a zero byte. -/
  terminated : ∀ i < count data, data[stop data i]? = some 0
  /-- Strings are texts. -/
  isText : ∀ i < count data, Text.IsText (content data i)
  /-- Strings ascend. -/
  ascending : (contents data).Pairwise (· < ·)

/-! ## Rules -/

/-- A condition on a table. -/
inductive Rule where
  /-- There is room for the number of strings. -/
  | countFits
  /-- There is room for the entries. -/
  | entriesFit
  /-- String `i` lies behind the entries. -/
  | behindEntries (i : Nat)
  /-- String `i` and the byte behind it lie in the table. -/
  | inside (i : Nat)
  /-- Behind string `i` is a zero byte. -/
  | terminated (i : Nat)
  /-- String `i` is a text. -/
  | isText (i : Nat)
  /-- String `i` comes before string `i + 1`. -/
  | ordered (i : Nat)

/-- The table keeps a rule. -/
def Rule.Holds : Rule → Prop
  | .countFits => 4 ≤ data.length
  | .entriesFit => entriesEnd data ≤ data.length
  | .behindEntries i => entriesEnd data ≤ offset data i
  | .inside i => stop data i < data.length
  | .terminated i => data[stop data i]? = some 0
  | .isText i => Text.IsText (content data i)
  | .ordered i => content data i < content data (i + 1)

instance : DecidablePred (Rule.Holds data)
  | .countFits => inferInstanceAs (Decidable (4 ≤ data.length))
  | .entriesFit => inferInstanceAs (Decidable (entriesEnd data ≤ data.length))
  | .behindEntries i => inferInstanceAs (Decidable (entriesEnd data ≤ offset data i))
  | .inside i => inferInstanceAs (Decidable (stop data i < data.length))
  | .terminated i => inferInstanceAs (Decidable (data[stop data i]? = some 0))
  | .isText i => inferInstanceAs (Decidable (Text.IsText (content data i)))
  | .ordered i => inferInstanceAs (Decidable (content data i < content data (i + 1)))

/-- How a table is reported that breaks a rule. -/
def Rule.violation : Rule → Violation
  | .countFits => .noCount
  | .entriesFit => .entriesCut
  | .behindEntries _ => .offsetInHeader
  | .inside _ => .endOutside
  | .terminated _ => .notTerminated
  | .isText i => .notText i (Utf8.firstFault (content data i) 0)
  | .ordered _ => .notAscending

/-- The rules for the entry of string `i`. -/
def entryRules (i : Nat) : List Rule :=
  [.behindEntries i, .inside i, .terminated i, .isText i]

/-- The rules of a table in the order in which they are judged: those for the header, those for
each entry, those for each pair of neighbours. -/
def rules : List Rule :=
  [.countFits, .entriesFit] ++
    ((List.range (count data)).flatMap entryRules ++
      (List.range (count data - 1)).map Rule.ordered)

variable {data}

/-- The strings ascend when each comes before its neighbour. -/
theorem pairwise_contents_iff :
    (contents data).Pairwise (· < ·) ↔
      ∀ i < count data - 1, content data i < content data (i + 1) := by
  unfold contents
  rw [List.pairwise_map]
  apply Rules.pairwise_range_iff
  exact fun hij hjk => List.lt_trans hij hjk

/-- A table is well-formed when it keeps every rule. -/
theorem wellFormed_iff : WellFormed data ↔ ∀ r ∈ rules data, r.Holds data := by
  simp only [rules, List.forall_mem_append, List.forall_mem_cons, List.forall_mem_flatMap,
    List.forall_mem_map, List.mem_range, entryRules, Rule.Holds]
  constructor
  · intro h
    refine ⟨⟨h.count_fits, h.entries_fit, by simp⟩, ?_, pairwise_contents_iff.mp h.ascending⟩
    intro i hi
    exact ⟨h.entriesEnd_le_offset i hi, h.stop_lt i hi, h.terminated i hi, h.isText i hi, by simp⟩
  · rintro ⟨⟨hcount, hentries, -⟩, hentry, hordered⟩
    exact {
      count_fits := hcount
      entries_fit := hentries
      entriesEnd_le_offset := fun i hi => (hentry i hi).1
      stop_lt := fun i hi => (hentry i hi).2.1
      terminated := fun i hi => (hentry i hi).2.2.1
      isText := fun i hi => (hentry i hi).2.2.2.1
      ascending := pairwise_contents_iff.mpr hordered }

end PosDictionary.StringTable.Layout
