import PosDictionary.Proofs.StringTable.Members
import PosDictionary.Proofs.StringTable.Writing

/-!
# Sets of strings in stored form

A list of strings is written as the set of its members: in ascending order, each of them once. What
is written is read back as these strings, whatever they are; a string may be empty, contain zero
bytes or begin another one. So the stored form stands for the set. It does not tell in which order,
or how often, the strings were given, and it tells apart any two different sets,
`serialize_stands_for_set`.
-/

namespace PosDictionary.StringTable

open Layout Outcome

/-! ## Stored forms of ascending strings -/

/-- Strings can be read back from their stored form, so that it is that of no other strings. -/
theorem eq_of_serialize {texts more : List String} {b c : Bytes}
    (hb : serialize texts = .ok b) (hc : serialize more = .ok c) (same : b.toList = c.toList) :
    texts = more := by
  obtain ⟨-, fits, rfl⟩ := serialize_eq_ok_iff.mp hb
  obtain ⟨-, fits', rfl⟩ := serialize_eq_ok_iff.mp hc
  rw [Bytes.toList_ofArray, Bytes.toList_ofArray] at same
  apply (List.map_inj_right fun s t => Text.bytes_inj.mp).mp
  rw [← contents_written fits, ← contents_written fits']
  exact congrArg contents same

/-- The size of a table does not depend on the order of its strings. -/
theorem storedSize_eq_of_perm {texts more : List String} (perm : texts.Perm more) :
    storedSize texts = storedSize more := by
  induction perm with
  | nil => rfl
  | cons s _ ih => rw [storedSize, storedSize, ih]
  | swap s t rest =>
    simp only [storedSize]
    omega
  | trans _ _ ih ih' => rw [ih, ih']

/-- Different strings that are short enough together are written as a set. -/
theorem exists_serialize_ofList {texts : List String}
    (fits : storedSize texts.dedup ≤ maxSize) :
    ∃ b, (StringSet.ofList texts).serialize = .ok b := by
  refine ⟨_, serialize_eq_ok_iff.mpr ⟨StringSet.ascending_toSortedList _, ?_, rfl⟩⟩
  rwa [length_written_eq_storedSize,
    storedSize_eq_of_perm (StringSet.toSortedList_ofList_perm texts)]

/-! ## Stored forms of sets -/

/-- **The stored form stands for the set.** Strings whose stored form is not too long are written
and read back: the table lists them in strictly ascending byte order, and no others. Lists with the
same members are written alike, and of lists that are written as the same bytes each string is in
both or in neither. -/
theorem serialize_stands_for_set :
    (∀ texts : List String, storedSize texts.dedup ≤ maxSize →
      ∃ (b : Bytes) (t : StringTable) (listed : List String),
        (StringSet.ofList texts).serialize = .ok b ∧ ofBytes b = .ok t ∧
        t.strings = .ok (Cursor.ofArray listed.toArray) ∧ listed.Pairwise Text.Before ∧
        (∀ s, s ∈ listed ↔ s ∈ texts) ∧ t.len = texts.dedup.length) ∧
    ∀ texts more : List String,
      ((∀ s, s ∈ texts ↔ s ∈ more) →
        (StringSet.ofList texts).serialize = (StringSet.ofList more).serialize) ∧
      ∀ b c, (StringSet.ofList texts).serialize = .ok b →
        (StringSet.ofList more).serialize = .ok c →
        (b.toList = c.toList ↔ ∀ s, s ∈ texts ↔ s ∈ more) := by
  constructor
  · intro texts fits
    obtain ⟨b, hb⟩ := exists_serialize_ofList fits
    obtain ⟨t, ht, hshows⟩ := exists_shows_of_serialize hb
    refine ⟨b, t, _, hb, ht, hshows.strings_eq, hshows.ascending, ?_, ?_⟩
    · exact fun s => StringSet.mem_toSortedList_ofList
    · rw [hshows.len_eq, (StringSet.toSortedList_ofList_perm texts).length_eq]
  · intro texts more
    have hsame (same : ∀ s, s ∈ texts ↔ s ∈ more) :
        (StringSet.ofList texts).serialize = (StringSet.ofList more).serialize :=
      congrArg serialize (StringSet.toSortedList_ofList_eq_iff.mpr same)
    refine ⟨hsame, fun b c hb hc => ⟨?_, ?_⟩⟩
    · intro heq
      exact StringSet.toSortedList_ofList_eq_iff.mp (eq_of_serialize hb hc heq)
    · intro same
      obtain rfl : b = c := Except.ok.inj (hb.symm.trans ((hsame same).trans hc))
      rfl

/-- The empty string, a string that begins another one, and one with a zero byte; two are given
twice. -/
def repeatedStrings : List String := ["a\x00", "", "a", "a\x00", ""]

/-- Strings of which some are repeated. -/
theorem serialize_stands_for_set_repeatedStrings :
    storedSize repeatedStrings.dedup ≤ maxSize ∧
      ∃ (b : Bytes) (t : StringTable) (listed : List String),
        (StringSet.ofList repeatedStrings).serialize = .ok b ∧ ofBytes b = .ok t ∧
        t.strings = .ok (Cursor.ofArray listed.toArray) ∧ listed.Pairwise Text.Before ∧
        (∀ s, s ∈ listed ↔ s ∈ repeatedStrings) ∧ t.len = 3 ∧
        (StringSet.ofList repeatedStrings.dedup).serialize = .ok b := by
  have fits : storedSize repeatedStrings.dedup ≤ maxSize := by decide
  obtain ⟨hwritten, hset⟩ := serialize_stands_for_set
  obtain ⟨b, t, listed, hb, ht, hstrings, ascending, hmem, hlen⟩ := hwritten _ fits
  refine ⟨fits, b, t, listed, hb, ht, hstrings, ascending, hmem, hlen.trans (by decide), ?_⟩
  rw [← hb]
  exact (hset _ _).1 fun s => List.mem_dedup

end PosDictionary.StringTable
