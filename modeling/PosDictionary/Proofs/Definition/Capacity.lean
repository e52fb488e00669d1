import PosDictionary.Proofs.Definition.Offers
import PosDictionary.Proofs.Definition.Written

/-!
# How many strings a builder takes

The records of a dictionary refer to strings by indices of two bytes, which tell 65536 strings
apart. A builder counts the different strings that its definitions use before it looks up any of
them: `finish_eq_error_iff` says exactly when it refuses to write and how. With no more than 65536
strings every lookup succeeds, `LooksUp`; with more there is none. So a lookup never reports a
string that is missing or an index that is too great: a builder whose lookups do something else in
these cases writes and reports the very same, `Finds`. The limit is met exactly,
`finish_refuses_exactly_too_many_strings`.
-/

namespace PosDictionary.Builder

open Outcome StringTable.Layout

/-- The different strings that definitions use. -/
def used (ds : List PosDefinition) : List String := (ds.flatMap PosDefinition.strings).dedup

variable {b : Builder} {ds : List PosDefinition}

/-! ## Refusals -/

/-- As many strings are stored as different ones are used. -/
theorem length_texts (h : b.Holds ds) : b.texts.length = (used ds).length :=
  (texts_perm_dedup h).length_eq

/-- A builder refuses to write more strings than there are indices, and else only strings that are
too long together. -/
theorem finish_eq_error_iff (h : b.Holds ds) {e : Error} :
    b.finish.outcome = .error e ↔
      if maxStrings < (used ds).length then e = .capacityExceeded "string_table" maxStrings
      else StringTable.maxSize < storedSize (used ds) ∧
        e = .capacityExceeded "string_table" StringTable.maxSize := by
  have hserialize := @StringTable.serialize_eq_error_iff b.texts e
  rw [if_pos b.ascending_texts, length_written_texts h, ← used] at hserialize
  rw [outcome_finish h, length_texts h]
  split
  · rw [Except.error.injEq, eq_comm]
  · rw [← hserialize]
    cases StringTable.serialize b.texts <;> simp

/-! ## Lookups -/

/-- Every lookup of a string succeeds that a builder makes when it writes its records. -/
structure LooksUp (b : Builder) : Prop where
  /-- The index of a string is its place, which fits two bytes. -/
  indexOf_getElem : ∀ (i : Nat) (h : i < b.texts.length),
    indexOf (b.texts.map Text.bytes).toArray b.texts[i] = .ok (UInt16.ofNat i) ∧
      (UInt16.ofNat i).toNat = i
  /-- Every string that a definition uses has a place. -/
  strings_mem : ∀ d ∈ b.definitions, ∀ s ∈ d.strings, s ∈ b.texts
  /-- All records are made. -/
  records_ok : ∃ records, b.records (indexOf (b.texts.map Text.bytes).toArray) = .ok records

/-- With few enough strings, every string that is used is looked up. -/
theorem Holds.looksUp (h : b.Holds ds) (few : b.texts.length ≤ maxStrings) : b.LooksUp where
  indexOf_getElem i hi := by
    have hmem : b.texts[i] ∈ b.texts := List.getElem_mem hi
    have hplace : b.texts.idxOf b.texts[i] = i := b.ascending_texts.nodup.idxOf_getElem i hi
    have hid : idOf b.texts b.texts[i] = UInt16.ofNat i := by rw [idOf, hplace]
    rw [indexOf_eq b.ascending_texts few hmem, ← hid, toNat_idOf few hmem]
    exact ⟨rfl, hplace⟩
  strings_mem d hd s hs :=
    (mem_texts h).mpr ⟨d, h.definitions_eq ▸ Array.mem_toList_iff.mpr hd, hs⟩
  records_ok := ⟨_, records_eq finds_indexOf h few⟩

/-- **A builder takes 65536 strings and no more.** After any offers, it refuses to write the
definitions that it has accepted exactly if they use more than 65536 different strings, as long as
the stored form of these is not too long; it reports that number as the limit. In any case it
reports either this limit or that of the size of the table, and never a string that it does not
find: once the strings are few enough, each is found at its place, from 0 up to 65535. And in any
case, whether it writes or refuses, it would do the same if its lookups did something else where
they do not find a string, or find it at a place that is too great. -/
theorem finish_refuses_exactly_too_many_strings (offers : List PosDefinition) :
    (storedSize (used (empty.accepted offers)) ≤ StringTable.maxSize → ∀ e,
      (empty.after offers).finish.outcome = .error e ↔
        65536 < (used (empty.accepted offers)).length ∧
          e = .capacityExceeded "string_table" 65536) ∧
    (∀ e, (empty.after offers).finish.outcome = .error e ↔
      if 65536 < (used (empty.accepted offers)).length then
        e = .capacityExceeded "string_table" 65536
      else StringTable.maxSize < storedSize (used (empty.accepted offers)) ∧
        e = .capacityExceeded "string_table" StringTable.maxSize) ∧
    (empty.after offers).finish.outcome ≠ .error (.invalidOperation "string interning") ∧
    ((used (empty.accepted offers)).length ≤ 65536 → (empty.after offers).LooksUp) ∧
    ∀ lookup, Finds lookup →
      (empty.after offers).finishBy lookup = (empty.after offers).finish := by
  have h := holds_after offers
  refine ⟨fun fits e => ?_, fun e => finish_eq_error_iff h, fun hinterning => ?_, fun few => ?_,
    fun lookup finds => finishBy_eq finds h⟩
  · rw [finish_eq_error_iff h]
    split
    next hmany => exact (and_iff_right hmany).symm
    next hfew =>
      constructor
      · rintro ⟨hlong, -⟩
        omega
      · rintro ⟨hmany, -⟩
        exact absurd hmany hfew
  · rw [finish_eq_error_iff h] at hinterning
    split at hinterning
    · cases hinterning
    · cases hinterning.2
  · exact h.looksUp ((length_texts h).trans_le few)

/-! ## A limit that is met -/

/-- The text of a single character, which is not among the first 65536. -/
def farName (i : Nat) : String := .singleton (Char.ofNat (65536 + i))

/-- Definitions with `n` different names, each of which has one form and no suffixes. -/
def farDefinitions (n : Nat) : List PosDefinition :=
  (List.range n).map fun i => ⟨farName i, [⟨"", "", 0⟩]⟩

/-- The code of a far character. -/
theorem toNat_farChar {i : Nat} (hi : i < 65536) : (Char.ofNat (65536 + i)).toNat = 65536 + i := by
  rw [Char.ofNat, dif_pos (.inr ⟨by omega, by omega⟩)]
  rfl

/-- Far names are told apart by their numbers. -/
theorem farName_inj {i j : Nat} (hi : i < 65536) (hj : j < 65536) (h : farName i = farName j) :
    i = j := by
  have hcode := congrArg Char.toNat (String.singleton_inj.mp h)
  rw [toNat_farChar hi, toNat_farChar hj] at hcode
  exact Nat.add_left_cancel hcode

/-- The far names are different. -/
theorem nodup_farNames {n : Nat} (h : n ≤ 65536) : ((List.range n).map farName).Nodup := by
  refine List.Nodup.map_on ?_ List.nodup_range
  intro i hi j hj
  rw [List.mem_range] at hi hj
  exact farName_inj (by omega) (by omega)

/-- No far definition is refused. -/
theorem accepted_farDefinitions {n : Nat} (h : n ≤ 65536) :
    empty.accepted (farDefinitions n) = farDefinitions n := by
  apply accepted_eq_self
  · unfold farDefinitions
    rw [List.map_map]
    exact nodup_farNames h
  · simp [farDefinitions]

/-- They use their names and the empty string. -/
theorem used_farDefinitions_perm {n : Nat} (h : n ≤ 65536) (hpos : 0 < n) :
    (used (farDefinitions n)).Perm ("" :: (List.range n).map farName) := by
  have hempty : "" ∉ (List.range n).map farName := by
    intro hmem
    obtain ⟨i, -, heq⟩ := List.mem_map.mp hmem
    exact String.singleton_ne_empty heq
  have hstrings : ∀ i ∈ List.range n, PosDefinition.strings ⟨farName i, [⟨"", "", 0⟩]⟩ =
      [farName i, "", ""] := fun _ _ => rfl
  rw [used, List.perm_ext_iff_of_nodup (List.nodup_dedup _)
    (List.nodup_cons.mpr ⟨hempty, nodup_farNames h⟩)]
  intro s
  rw [List.mem_dedup, farDefinitions, List.flatMap_map, List.mem_cons, List.mem_map,
    List.mem_flatMap]
  constructor
  · rintro ⟨i, hi, hs⟩
    rw [hstrings i hi, List.mem_cons] at hs
    rcases hs with rfl | hs
    · exact .inr ⟨i, hi, rfl⟩
    · exact .inl (by simpa using hs)
  · rintro (rfl | ⟨i, hi, rfl⟩)
    · exact ⟨0, List.mem_range.mpr hpos, by simp [PosDefinition.strings]⟩
    · exact ⟨i, hi, List.mem_cons_self⟩

/-- Far definitions use their names, and the empty string as suffix. -/
theorem length_used_farDefinitions {n : Nat} (h : n ≤ 65536) (hpos : 0 < n) :
    (used (farDefinitions n)).length = n + 1 := by
  rw [(used_farDefinitions_perm h hpos).length_eq, List.length_cons, List.length_map,
    List.length_range]

/-- The strings of the far definitions fit a table. -/
theorem storedSize_used_farDefinitions_le {n : Nat} (h : n ≤ 65536) (hpos : 0 < n) :
    storedSize (used (farDefinitions n)) ≤ StringTable.maxSize := by
  have hshort : ∀ s ∈ used (farDefinitions n), s.utf8ByteSize ≤ 4 := by
    intro s hs
    rw [(used_farDefinitions_perm h hpos).mem_iff, List.mem_cons, List.mem_map] at hs
    rcases hs with rfl | ⟨i, -, rfl⟩
    · exact Nat.zero_le 4
    · exact String.utf8ByteSize_singleton.trans_le (Char.utf8Size_le_four _)
  have hsize := storedSize_le hshort
  have hmax : StringTable.maxSize = 4294967295 := rfl
  rw [length_used_farDefinitions h hpos] at hsize
  omega

/-- A lookup that gives index 0 where there is none. -/
def findsOrZero : Lookup := fun keys s =>
  match indexOf keys s with
  | .ok index => .ok index
  | .error _ => .ok 0

/-- With 65535 names and the empty string, the limit is met and every lookup succeeds; one more name
is too many, also if every lookup gave an index. -/
theorem finish_refuses_exactly_too_many_strings_farDefinitions :
    ((used (empty.accepted (farDefinitions 65535))).length = 65536 ∧
      storedSize (used (empty.accepted (farDefinitions 65535))) ≤ StringTable.maxSize ∧
      (∀ e, (empty.after (farDefinitions 65535)).finish.outcome ≠ .error e) ∧
      (empty.after (farDefinitions 65535)).LooksUp) ∧
    (used (empty.accepted (farDefinitions 65536))).length = 65537 ∧
      storedSize (used (empty.accepted (farDefinitions 65536))) ≤ StringTable.maxSize ∧
      (empty.after (farDefinitions 65536)).finish.outcome =
        .error (.capacityExceeded "string_table" 65536) ∧
      Finds findsOrZero ∧
      (empty.after (farDefinitions 65536)).finishBy findsOrZero =
        (empty.after (farDefinitions 65536)).finish := by
  obtain ⟨hmet, -, -, hlooks, -⟩ := finish_refuses_exactly_too_many_strings (farDefinitions 65535)
  obtain ⟨hbeyond, -, -, -, hsame⟩ := finish_refuses_exactly_too_many_strings (farDefinitions 65536)
  have hlen := @length_used_farDefinitions 65535 (by omega) (by omega)
  have hlen' := @length_used_farDefinitions 65536 (by omega) (by omega)
  have fits := @storedSize_used_farDefinitions_le 65535 (by omega) (by omega)
  have fits' := @storedSize_used_farDefinitions_le 65536 (by omega) (by omega)
  rw [accepted_farDefinitions (Nat.le_succ 65535)] at hmet hlooks ⊢
  rw [accepted_farDefinitions (Nat.le_refl 65536)] at hbeyond ⊢
  have finds : Finds findsOrZero := fun keys s index h => by rw [findsOrZero, h]
  refine ⟨⟨hlen, fits, fun e he => ?_, hlooks hlen.le⟩, hlen', fits', ?_, finds, hsame _ finds⟩
  · have := ((hmet fits e).mp he).1
    omega
  · exact (hbeyond fits' _).mpr ⟨by omega, rfl⟩

end PosDictionary.Builder
