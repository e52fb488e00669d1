import Mathlib.Algebra.Ring.Nat
import PosDictionary.Proofs.Spans
import PosDictionary.Proofs.StringTable.Writing

/-!
# Where strings are placed

A table is written in two passes. The first writes the entries, which state a place for each string
before any string is there; the second writes the strings. The places come true, `LaidOut`: each
string stands where its entry says, and the strings with their terminators take up everything behind
the entries, one after the other, `tile_regions`.

All numbers are cut to four bytes when they are written. None of them changes by that as long as the
table is not too long, `toNat_of_mem_numbers`, so that its size alone decides, next to the order of
the strings, whether they can be written: `serialize_lays_out`.
-/

namespace PosDictionary.StringTable

namespace Layout

/-! ## Sizes -/

/-- Every string takes its bytes and a terminator. -/
theorem textSize_eq_sum (texts : List String) :
    textSize texts = (texts.map fun s => s.utf8ByteSize + 1).sum := by
  induction texts with
  | nil => rfl
  | cons s texts ih => rw [textSize_cons, ih, List.map_cons, List.sum_cons]

/-- Every string takes nine bytes more than its own, eight for its entry and one that ends it. -/
theorem length_written_eq_sum (texts : List String) :
    (written texts).length = 4 + (texts.map fun s => 9 + s.utf8ByteSize).sum := by
  rw [length_written_eq_storedSize]
  induction texts with
  | nil => rfl
  | cons s texts ih =>
    rw [storedSize, ih, List.map_cons, List.sum_cons]
    omega

/-! ## Numbers -/

/-- The numbers that are written for strings: how many they are, and the place and the size of
each. -/
def numbers (texts : List String) : List Nat :=
  texts.length ::
    (entriesFrom (4 + 8 * texts.length) texts).flatMap fun entry => [entry.1, entry.2]

variable {texts : List String}

/-- No number of a table is greater than its length. -/
theorem le_length_of_mem_numbers {n : Nat} (hn : n ∈ numbers texts) :
    n ≤ (written texts).length := by
  rcases List.mem_cons.mp hn with rfl | hn
  · rw [length_written]
    omega
  · obtain ⟨entry, hentry, hn⟩ := List.mem_flatMap.mp hn
    obtain ⟨i, hi⟩ := List.getElem?_of_mem hentry
    rw [getElem?_entriesFrom, Option.map_eq_some_iff] at hi
    obtain ⟨s, hs, rfl⟩ := hi
    obtain ⟨hlt, rfl⟩ := List.getElem?_eq_some_iff.mp hs
    have hplace := placeOf_add_lt hlt
    rw [placeOf] at hplace
    simp only [List.mem_cons, List.not_mem_nil, or_false] at hn
    omega

/-- Numbers of a table that is not too long fit four bytes. -/
theorem toNat_of_mem_numbers (fits : (written texts).length ≤ maxSize) {n : Nat}
    (hn : n ∈ numbers texts) : (UInt32.ofNat n).toNat = n := by
  have hle := le_length_of_mem_numbers hn
  have hmax : maxSize < UInt32.size := by decide
  exact UInt32.toNat_ofNat_of_lt' (by omega)

/-! ## Regions -/

/-- The region of string `i`: its bytes and the one that ends it. -/
def region (data : List UInt8) (i : Nat) : Span := ⟨offset data i, stop data i + 1⟩

/-- The regions of all strings. -/
def regions (data : List UInt8) : List Span := (List.range (count data)).map (region data)

/-- Strings that follow each other take up everything up to the end of the last. -/
theorem tile_entriesFrom (place : Nat) (texts : List String) :
    Span.Tile place
      ((entriesFrom place texts).map fun entry => ⟨entry.1, entry.1 + entry.2 + 1⟩)
      (place + textSize texts) := by
  induction texts generalizing place with
  | nil => rfl
  | cons s texts ih =>
    refine ⟨rfl, by simp only; omega, ?_⟩
    have hrest := ih (place + (s.utf8ByteSize + 1))
    rwa [Nat.add_assoc place, ← textSize_cons] at hrest

/-- In what is written, the regions are those that the entries were made for. -/
theorem regions_written (fits : (written texts).length ≤ maxSize) :
    regions (written texts) = (entriesFrom (4 + 8 * texts.length) texts).map fun entry =>
      ⟨entry.1, entry.1 + entry.2 + 1⟩ := by
  apply List.ext_getElem
  · rw [regions, count_written fits, List.length_map, List.length_range, List.length_map,
      length_entriesFrom]
  · intro i hi hi'
    rw [regions, count_written fits, List.length_map, List.length_range] at hi
    have hentry := getElem?_entriesFrom (4 + 8 * texts.length) texts i
    rw [List.getElem?_eq_getElem hi, List.getElem?_eq_getElem (by simpa using hi'),
      Option.map_some, Option.some_inj] at hentry
    simp only [regions, List.getElem_map, List.getElem_range, region, stop, offset_written fits hi,
      size_written fits hi, hentry, placeOf]

/-- The strings and their terminators take all bytes behind the entries. -/
theorem tile_regions (fits : (written texts).length ≤ maxSize) :
    Span.Tile (entriesEnd (written texts)) (regions (written texts)) (written texts).length := by
  rw [regions_written fits, entriesEnd, count_written fits, length_written]
  exact tile_entriesFrom _ _

/-- The data is a table of these strings as it is documented: the count, then an entry for each of
them, then their bytes, each string with a zero byte behind it. -/
structure LaidOut (texts : List String) (data : List UInt8) : Prop where
  /-- There are four bytes for the count, and nine for each string besides its own. -/
  length_eq : data.length = 4 + (texts.map fun s => 9 + s.utf8ByteSize).sum
  /-- The count comes first. -/
  count_eq : count data = texts.length
  /-- The place of a string is behind the entries and behind all strings before it. -/
  offset_eq : ∀ i < texts.length, offset data i =
    4 + 8 * texts.length + ((texts.take i).map fun s => s.utf8ByteSize + 1).sum
  /-- Its size is its own number of bytes. -/
  size_eq : ∀ (i : Nat) (_ : i < texts.length), size data i = texts[i].utf8ByteSize
  /-- Its bytes stand there. -/
  content_eq : ∀ (i : Nat) (_ : i < texts.length), content data i = Text.bytes texts[i]
  /-- A zero byte stands behind them. -/
  terminated : ∀ i < texts.length, data[stop data i]? = some 0
  /-- Nothing else stands behind the entries, and no byte serves two strings. -/
  tile : Span.Tile (entriesEnd data) (regions data) data.length

/-- What is written is laid out as it should be. -/
theorem laidOut_written (fits : (written texts).length ≤ maxSize)
    (ascending : texts.Pairwise Text.Before) : LaidOut texts (written texts) where
  length_eq := length_written_eq_sum texts
  count_eq := count_written fits
  offset_eq i hi := by rw [offset_written fits hi, placeOf, textSize_eq_sum]
  size_eq _ hi := size_written fits hi
  content_eq _ hi := content_written fits hi
  terminated i hi := (wellFormed_written fits ascending).terminated i (count_written fits ▸ hi)
  tile := tile_regions fits

end Layout

open Layout

/-- Strings do not ascend if one is not before a later one. -/
theorem not_ascending_iff {texts : List String} :
    ¬ texts.Pairwise Text.Before ↔ ∃ (i j : Nat) (_ : i < j) (_ : j < texts.length),
      Text.bytes texts[j] ≤ Text.bytes texts[i] := by
  rw [List.pairwise_iff_getElem]
  simp only [not_forall, Text.Before, Std.not_lt]
  constructor
  · rintro ⟨i, j, _, hj, hij, hle⟩
    exact ⟨i, j, hij, hj, hle⟩
  · rintro ⟨i, j, hij, hj, hle⟩
    exact ⟨i, j, by omega, hj, hij, hle⟩

/-- **Strings are written in exactly the documented layout.** Strings that are not too long together
are refused if and only if some string is not below one that stands behind it; they are refused as
an argument. Otherwise they are written: the data is as long as the sizes add up to and holds the
count, the entries and the strings as `LaidOut` says. The regions of the strings tile what stands
behind the entries, in the order of the strings, and no number is cut when it is written. -/
theorem serialize_lays_out (texts : List String)
    (fits : 4 + (texts.map fun s => 9 + s.utf8ByteSize).sum ≤ maxSize) :
    (∀ e, serialize texts = .error e ↔
      (∃ (i j : Nat) (_ : i < j) (_ : j < texts.length),
        Text.bytes texts[j] ≤ Text.bytes texts[i]) ∧
      e = .invalidArgument "strings" "must be strictly ascending") ∧
    ((∀ (i j : Nat) (_ : i < j) (_ : j < texts.length),
        Text.bytes texts[i] < Text.bytes texts[j]) →
      ∃ b, serialize texts = .ok b ∧ LaidOut texts b.toList ∧
        (regions b.toList).Pairwise (fun r s => r.stop ≤ s.start) ∧
        ∀ n ∈ numbers texts, (UInt32.ofNat n).toNat = n) := by
  rw [← length_written_eq_sum] at fits
  constructor
  · intro e
    rw [serialize_eq_error_iff, ← not_ascending_iff]
    split
    next ascending =>
      constructor
      · rintro ⟨hlong, -⟩
        exact absurd fits (Nat.not_le.mpr hlong)
      · rintro ⟨hnot, -⟩
        exact absurd ascending hnot
    next hnot => exact (and_iff_right hnot).symm
  · intro ascending
    have ascending : texts.Pairwise Text.Before :=
      List.pairwise_iff_getElem.mpr fun i j _ hj hij => ascending i j hij hj
    have hdata : (Bytes.ofArray (written texts).toArray 0).toList = written texts :=
      Bytes.toList_ofArray _ _
    refine ⟨_, serialize_eq_ok_iff.mpr ⟨ascending, fits, rfl⟩, ?_, ?_, fun n =>
      toNat_of_mem_numbers fits⟩
    · rw [hdata]
      exact laidOut_written fits ascending
    · rw [hdata]
      exact (tile_regions fits).pairwise

/-- The empty string and two others are written in ascending order, and refused when the two change
places. -/
theorem serialize_lays_out_threeStrings :
    4 + (["", "a", "か"].map fun s => 9 + s.utf8ByteSize).sum ≤ maxSize ∧
    (∃ b, serialize ["", "a", "か"] = .ok b ∧ LaidOut ["", "a", "か"] b.toList ∧
      regions b.toList = [⟨28, 29⟩, ⟨29, 31⟩, ⟨31, 35⟩]) ∧
    serialize ["", "か", "a"] = .error (.invalidArgument "strings" "must be strictly ascending") := by
  have fits : 4 + (["", "a", "か"].map fun s => 9 + s.utf8ByteSize).sum ≤ maxSize := by decide
  have ascending : ["", "a", "か"].Pairwise Text.Before := by decide
  obtain ⟨-, hwritten⟩ := serialize_lays_out ["", "a", "か"] fits
  obtain ⟨hrefused, -⟩ := serialize_lays_out ["", "か", "a"] (by decide)
  obtain ⟨b, hb, hlaid, -, -⟩ := hwritten fun i j hij hj =>
    List.pairwise_iff_getElem.mp ascending i j (by omega) hj hij
  refine ⟨fits, ⟨b, hb, hlaid, ?_⟩,
    (hrefused _).mpr ⟨not_ascending_iff.mp (by decide), rfl⟩⟩
  obtain ⟨-, -, rfl⟩ := serialize_eq_ok_iff.mp hb
  decide

end PosDictionary.StringTable
