import PosDictionary.Expansion
import PosDictionary.Proofs.Engine.Enumeration
import PosDictionary.Proofs.StringTable.Members
import PosDictionary.SuffixDictionary

/-!
# Expanding a vocabulary

An entry of a vocabulary ends in one of three ways: it is skipped, it is looked up in vain, or it
adds its tokens. `expandEntries_eq` adds these up along the entries, for every dictionary whose
lookups only append (`Dictionary.Appends`): the tokens, the number of the entries that matched, and
the events.

* `expandEntries_append` : entries are expanded part by part, with any dictionary;
* `Engine.appends_of_shows`, `SuffixDictionary.appends` : the lookups of an opened dictionary only
  append, and those of a dictionary given by suffixes;
* `Engine.exists_expands` : what an opened dictionary makes of a vocabulary.
-/

namespace PosDictionary

open Outcome

/-! ## Entries that can be expanded -/

/-- The entry has a stem, and a POS that is one of `names`. -/
def UserEntry.Expandable (names : List String) (entry : UserEntry) : Prop :=
  entry.key ≠ "" ∧ entry.value ≠ "" ∧ entry.pos ∈ names

/-- The entry has a stem, and a POS that is none of `names`. -/
def UserEntry.Unmatched (names : List String) (entry : UserEntry) : Prop :=
  entry.key ≠ "" ∧ entry.value ≠ "" ∧ entry.pos ∉ names

instance (names : List String) : DecidablePred (UserEntry.Expandable names) :=
  fun entry => inferInstanceAs (Decidable (entry.key ≠ "" ∧ entry.value ≠ "" ∧ entry.pos ∈ names))

instance (names : List String) : DecidablePred (UserEntry.Unmatched names) :=
  fun entry => inferInstanceAs (Decidable (entry.key ≠ "" ∧ entry.value ≠ "" ∧ entry.pos ∉ names))

/-- An entry has a stem unless one of its parts is empty. -/
theorem UserEntry.hasStem_iff {entry : UserEntry} :
    entry.hasStem ↔ entry.key ≠ "" ∧ entry.value ≠ "" := by
  simp [UserEntry.hasStem]

/-- An entry is expanded if it has a stem and a name that is known. -/
theorem UserEntry.expandable_iff {names : List String} {entry : UserEntry} :
    entry.Expandable names ↔ entry.hasStem ∧ entry.pos ∈ names := by
  rw [UserEntry.hasStem_iff, and_assoc]
  rfl

/-- An entry is unmatched if it has a stem but its name is not known. -/
theorem UserEntry.unmatched_iff {names : List String} {entry : UserEntry} :
    entry.Unmatched names ↔ entry.hasStem ∧ entry.pos ∉ names := by
  rw [UserEntry.hasStem_iff, and_assoc]
  rfl

/-! ## Expansion part by part -/

section Expansion

variable {δ : Type} [Dictionary δ] {d : δ}

/-- Entries are expanded part by part: the second part starts with the tokens of the first, and the
numbers are added. -/
theorem expandEntries_append (d : δ) (es₁ es₂ : List UserEntry) (out : Array Token) :
    expandEntries d (es₁ ++ es₂) out = do
      let (n₁, out) ← expandEntries d es₁ out
      let (n₂, out) ← expandEntries d es₂ out
      return (n₁ + n₂, out) := by
  induction es₁ generalizing out with
  | nil => simp [expandEntries]
  | cons entry es₁ ih =>
    rw [List.cons_append, expandEntries, expandEntries]
    by_cases hstem : entry.hasStem
    · simp only [hstem, if_true, bind_assoc]
      congr
      funext ⟨matched, out⟩
      cases matched with
      | true => simp [ih, Nat.add_right_comm]
      | false => simp [ih, bind_assoc]
    · simp [hstem, ih, bind_assoc]

/-! ## Dictionaries whose lookups only append -/

/-- Every lookup answers whether the POS is one of `names`, appends what `gives` says of the entry,
and reports what `reports` says of the POS. The tokens before those that are appended do not
matter. -/
structure Dictionary.Appends (d : δ) (names : List String) (gives : UserEntry → List Token)
    (reports : String → List Event) : Prop where
  /-- A lookup appends and reports. -/
  getTokens_eq : ∀ entry out, Dictionary.getTokens d entry.key entry.value entry.pos out =
    ⟨.ok (decide (entry.pos ∈ names), out ++ gives entry), reports entry.pos⟩
  /-- Without a POS there is nothing to append. -/
  gives_eq_nil : ∀ entry, entry.pos ∉ names → gives entry = []

/-- What is reported about an entry: that it is skipped, or what its lookup reports, with a notice
if the POS is not known. -/
def eventsOf (names : List String) (reports : String → List Event) (entry : UserEntry) :
    List Event :=
  if entry.hasStem then
    reports entry.pos ++ if entry.pos ∈ names then [] else [.unmatched entry]
  else
    [.skipped entry]

variable {names : List String} {gives : UserEntry → List Token} {reports : String → List Event}

/-- What is appended in two parts is appended. -/
theorem appendList_appendList {α : Type} (out : Array α) (first second : List α) :
    out ++ first ++ second = out ++ (first ++ second) := by
  apply Array.ext'
  simp

/-- An expansion counts the entries that can be expanded, appends their tokens in order, and reports
entry by entry. -/
theorem expandEntries_eq (h : Dictionary.Appends d names gives reports) (entries : List UserEntry)
    (out : Array Token) :
    expandEntries d entries out =
      ⟨.ok (entries.countP (UserEntry.Expandable names),
          out ++ (entries.filter (UserEntry.Expandable names)).flatMap gives),
        entries.flatMap (eventsOf names reports)⟩ := by
  -- The tokens of an entry stand before those of the next, so the induction is over all `out`.
  induction entries generalizing out with
  | nil =>
    show (⟨.ok (0, out), []⟩ : Traced Fault (Nat × Array Token)) = _
    simp
  | cons entry rest ih =>
    rw [expandEntries]
    by_cases hstem : entry.hasStem
    case neg =>
      have hskip : ¬ entry.Expandable names := fun hentry =>
        hstem (UserEntry.expandable_iff.mp hentry).1
      rw [if_neg hstem, Traced.emit, mk_ok_bind, ih]
      simp [hskip, hstem, eventsOf]
    case pos =>
      rw [if_pos hstem, h.getTokens_eq, mk_ok_bind]
      by_cases hpos : entry.pos ∈ names
      · have hentry : entry.Expandable names := UserEntry.expandable_iff.mpr ⟨hstem, hpos⟩
        simp only [hpos, decide_true, if_true, ih, mk_ok_bind]
        simp [hentry, hstem, hpos, eventsOf, appendList_appendList]
      · have hentry : ¬ entry.Expandable names := fun hentry =>
          hpos (UserEntry.expandable_iff.mp hentry).2
        simp only [hpos, decide_false, Bool.false_eq_true, if_false, ih, Traced.emit, mk_ok_bind]
        simp [hentry, hstem, hpos, eventsOf, h.gives_eq_nil]

end Expansion

/-! ## What is reported about a vocabulary -/

section Reports

variable (names : List String)

/-- The report of the engine about a lookup: that the POS is not known, if it is not. -/
def reportsOf (pos : String) : List Event :=
  if pos ∈ names then [] else [.unknownPos pos]

/-- An event of the expansion about a single entry. -/
def Event.IsNotice (event : Event) : Prop := event.origin = .expansion ∧ event.level = .trace

instance : DecidablePred Event.IsNotice :=
  fun event => inferInstanceAs (Decidable (event.origin = .expansion ∧ event.level = .trace))

/-- An entry that is expanded is not reported, one that is looked up in vain is reported by both
parts, and one that is skipped by the expansion only. -/
theorem eventsOf_cases (entry : UserEntry) :
    (entry.Expandable names ∧ ¬ entry.Unmatched names ∧
      eventsOf names (reportsOf names) entry = []) ∨
    (entry.Unmatched names ∧ ¬ entry.Expandable names ∧
      eventsOf names (reportsOf names) entry = [.unknownPos entry.pos, .unmatched entry]) ∨
    (¬ entry.Unmatched names ∧ ¬ entry.Expandable names ∧
      eventsOf names (reportsOf names) entry = [.skipped entry]) := by
  rw [UserEntry.expandable_iff, UserEntry.unmatched_iff, eventsOf, reportsOf]
  by_cases hstem : entry.hasStem
  · by_cases hpos : entry.pos ∈ names
    · simp [hstem, hpos]
    · simp [hstem, hpos]
  · simp [hstem]

/-- Every entry is expanded or noticed, and not both. -/
theorem countP_notices_add (entries : List UserEntry) :
    (entries.flatMap (eventsOf names (reportsOf names))).countP Event.IsNotice +
      entries.countP (UserEntry.Expandable names) = entries.length := by
  induction entries with
  | nil => rfl
  | cons entry rest ih =>
    have hone : (eventsOf names (reportsOf names) entry).countP Event.IsNotice +
        [entry].countP (UserEntry.Expandable names) = 1 := by
      rcases eventsOf_cases names entry with ⟨he, -, hevents⟩ | ⟨-, he, hevents⟩ | ⟨-, he, hevents⟩
      · simp [hevents, he]
      · simp [hevents, he, Event.IsNotice, Event.origin, Event.level]
      · simp [hevents, he, Event.IsNotice, Event.origin, Event.level]
    rw [List.flatMap_cons, List.countP_append, ← List.singleton_append, List.countP_append,
      List.length_append, List.length_singleton]
    omega

/-- What the engine reports is one event for each entry that is looked up in vain. -/
theorem filter_engine_events (entries : List UserEntry) :
    (entries.flatMap (eventsOf names (reportsOf names))).filter (·.origin = .engine) =
      (entries.filter (UserEntry.Unmatched names)).map fun entry => .unknownPos entry.pos := by
  induction entries with
  | nil => rfl
  | cons entry rest ih =>
    rw [List.flatMap_cons, List.filter_append, ih]
    rcases eventsOf_cases names entry with ⟨-, he, hevents⟩ | ⟨he, -, hevents⟩ | ⟨he, -, hevents⟩
    · simp [hevents, he]
    · simp [hevents, he, Event.origin]
    · simp [hevents, he, Event.origin]

end Reports

/-! ## Dictionaries given by suffixes -/

namespace SuffixDictionary

/-- The tokens of an entry, if the dictionary has its POS. -/
def tokensFor (d : SuffixDictionary) (entry : UserEntry) : List Token :=
  match d.find? entry.pos with
  | none => []
  | some p => tokensOf entry.key entry.value p

/-- The names of a dictionary are those that it finds. -/
theorem mem_names {d : SuffixDictionary} {s : String} : s ∈ d.names ↔ (d.find? s).isSome := by
  rw [names, (Text.sorted_perm _).mem_iff, List.mem_eraseDups, List.mem_map, find?,
    List.find?_isSome]
  simp

/-- The lookups of a dictionary given by suffixes only append, and report nothing. -/
theorem appends (d : SuffixDictionary) :
    Dictionary.Appends d d.names d.tokensFor (fun _ => []) where
  getTokens_eq entry out := by
    cases hfind : d.find? entry.pos with
    | none =>
      have hpos : entry.pos ∉ d.names := by simp [mem_names, hfind]
      simp only [Dictionary.getTokens, tokensFor, hfind, decide_eq_false hpos]
      rfl
    | some p =>
      have hpos : entry.pos ∈ d.names := by simp [mem_names, hfind]
      simp only [Dictionary.getTokens, tokensFor, hfind, decide_eq_true hpos]
      rfl
  gives_eq_nil entry unknown := by
    have hfind : d.find? entry.pos = none := by simpa [mem_names] using unknown
    simp [tokensFor, hfind]

end SuffixDictionary

/-! ## Opened dictionaries -/

namespace Engine

variable {e : Engine} {texts : List String} {records : List TokenRecord}

/-- A lookup reports a POS that is not known, and nothing else. -/
theorem events_getTokens (h : e.posIndex.Shows texts records) (key value pos : String)
    (out : Array Token) :
    (Dictionary.getTokens e key value pos out).events =
      reportsOf (namesOf texts records) pos := by
  obtain ⟨found, hfound⟩ := h.exists_resolveId pos
  have hknown := (isSome_posId_iff h hfound).trans (mem_namesOf h).symm
  simp only [Dictionary.getTokens, hfound, Traced.ofExcept, mk_ok_bind, reportsOf]
  cases found with
  | none =>
    have hpos : pos ∉ namesOf texts records := by simpa using hknown
    rw [if_neg hpos]
    rfl
  | some id =>
    have hpos : pos ∈ namesOf texts records := by simpa using hknown
    rw [if_pos hpos]
    simp only [tokensOf_eq h, mk_ok_bind]
    rfl

/-- The lookups of an opened dictionary only append. -/
theorem appends_of_shows (h : e.posIndex.Shows texts records) :
    Dictionary.Appends e (namesOf texts records)
      (fun entry => tokensFrom texts records entry.key entry.value entry.pos)
      (reportsOf (namesOf texts records)) where
  getTokens_eq entry out := by
    rcases hlookup : Dictionary.getTokens e entry.key entry.value entry.pos out with
      ⟨outcome, events⟩
    have houtcome := outcome_getTokens h entry.key entry.value entry.pos out
    have hevents := events_getTokens h entry.key entry.value entry.pos out
    rw [hlookup] at houtcome hevents
    obtain rfl : outcome = _ := houtcome
    obtain rfl : events = _ := hevents
    rw [decide_eq_decide.mpr (mem_namesOf h)]
  gives_eq_nil entry unknown := tokensFrom_eq_nil_iff.mpr ((mem_namesOf h).not.mp unknown)

/-- What the dictionary makes of a vocabulary: it knows the POS `names`, and a lookup of an entry
gives the tokens that `gives` says. -/
structure Expands (e : Engine) (names : List String) (gives : UserEntry → List Token) : Prop where
  /-- The POS are those that are listed. -/
  posList_eq : Dictionary.posList e = .ok names
  /-- A lookup appends the tokens of its entry to any tokens. -/
  getTokens_eq : ∀ entry out,
    (Dictionary.getTokens e entry.key entry.value entry.pos out).outcome =
      .ok (decide (entry.pos ∈ names), out ++ gives entry)
  /-- The tokens of the entries that can be expanded are appended in the order of the entries, and
  these entries are counted. -/
  expandEntries_eq : ∀ entries out, (expandEntries e entries out).outcome =
    .ok (entries.countP (UserEntry.Expandable names),
      out ++ (entries.filter (UserEntry.Expandable names)).flatMap gives)
  /-- Entries are expanded part by part. -/
  expandEntries_append : ∀ first second out, expandEntries e (first ++ second) out = do
    let (n₁, out) ← expandEntries e first out
    let (n₂, out) ← expandEntries e second out
    return (n₁ + n₂, out)
  /-- Another order of the entries gives the same number, and the same tokens in another order. -/
  of_perm : ∀ {entries others : List UserEntry}, entries.Perm others →
    ∀ out, ∃ (count : Nat) (found reordered : List Token),
    (expandEntries e entries out).outcome = .ok (count, out ++ found) ∧
    (expandEntries e others out).outcome = .ok (count, out ++ reordered) ∧ found.Perm reordered
  /-- Every entry is counted or noticed by the expansion, and not both. -/
  notices_add_count : ∀ entries out count after,
    (expandEntries e entries out).outcome = .ok (count, after) →
      (expandEntries e entries out).events.countP Event.IsNotice + count = entries.length
  /-- The engine reports every entry that is looked up in vain, once, and no other entry. -/
  engine_events : ∀ entries out,
    (expandEntries e entries out).events.filter (·.origin = .engine) =
      (entries.filter (UserEntry.Unmatched names)).map fun entry => .unknownPos entry.pos

/-- **A vocabulary is expanded entry by entry.** An opened dictionary appends the tokens of the
entries with a stem and a known POS, in their order and whatever was there before, and counts these
entries; each of the others leaves one notice, and one report of the engine if it has a stem. -/
theorem exists_expands {tokenArray stringArray : Bytes}
    (h : (ofBytes tokenArray stringArray).outcome = .ok e) :
    ∃ names gives, e.Expands names gives := by
  obtain ⟨texts, records, hshows, -, -⟩ := exists_shows_of_ofBytes h
  have happends := appends_of_shows hshows
  refine ⟨namesOf texts records, _, {
    posList_eq := posList_eq hshows
    getTokens_eq := fun entry out => by rw [happends.getTokens_eq]
    expandEntries_eq := fun entries out => by rw [PosDictionary.expandEntries_eq happends]
    expandEntries_append := PosDictionary.expandEntries_append e
    of_perm := ?_
    notices_add_count := ?_
    engine_events := ?_ }⟩
  · intro entries others hperm out
    rw [PosDictionary.expandEntries_eq happends, PosDictionary.expandEntries_eq happends,
      hperm.countP_eq]
    exact ⟨_, _, _, rfl, rfl, (hperm.filter _).flatMap_right _⟩
  · intro entries out count after hcount
    rw [PosDictionary.expandEntries_eq happends] at hcount ⊢
    obtain ⟨rfl, -⟩ := Prod.mk.inj (Except.ok.inj hcount)
    exact countP_notices_add _ entries
  · intro entries out
    rw [PosDictionary.expandEntries_eq happends]
    exact filter_engine_events _ entries

/-- What an engine with three forms makes of entries. -/
theorem exists_expands_threeForms :
    (ofBytes threeForms threeStrings).outcome = .ok ⟨⟨threeStrings, 3⟩, ⟨threeForms⟩⟩ ∧
      ∃ names gives, Expands ⟨⟨threeStrings, 3⟩, ⟨threeForms⟩⟩ names gives :=
  ⟨outcome_ofBytes_threeForms, exists_expands outcome_ofBytes_threeForms⟩

end Engine

end PosDictionary
