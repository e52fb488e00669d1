import PosDictionary.Proofs.StringTable.Strings
import PosDictionary.StringTable.Writer

/-!
# The stored form that is written

`StringTable.serialize` writes strings in one particular stored form, `Layout.written`: the entries
state the places of the strings one after the other, and the strings follow without gaps. It does
so for ascending strings whose stored form is not too long, `serialize_eq_ok_iff`. What is written
is well-formed and holds the same strings, so that a table that is read from it shows them,
`exists_shows_of_serialize`.
-/

namespace PosDictionary.StringTable

open LittleEndian Outcome

namespace Layout

/-! ## What is written -/

/-- A string as it is stored. -/
def terminated (s : String) : List UInt8 := Text.bytes s ++ [0]

/-- Offsets and sizes of strings that follow each other, the first at `place`. -/
def entriesFrom (place : Nat) : List String → List (Nat × Nat)
  | [] => []
  | s :: rest => (place, s.utf8ByteSize) :: entriesFrom (place + (s.utf8ByteSize + 1)) rest

/-- An entry as it is stored. -/
def encodedEntry (entry : Nat × Nat) : List UInt8 := encode 4 entry.1 ++ encode 4 entry.2

/-- The stored form of strings that follow each other. -/
def written (texts : List String) : List UInt8 :=
  encode 4 texts.length ++
    ((entriesFrom (4 + 8 * texts.length) texts).flatMap encodedEntry ++ texts.flatMap terminated)

/-- An entry takes eight bytes. -/
@[simp] theorem length_encodedEntry (entry : Nat × Nat) : (encodedEntry entry).length = 8 := by
  simp [encodedEntry]

/-- The bytes of strings are counted with their terminators. -/
theorem length_flatMap_terminated (texts : List String) :
    (texts.flatMap terminated).length = textSize texts := by
  suffices h : ∀ start, texts.foldl (fun size s => size + (s.utf8ByteSize + 1)) start =
      start + (texts.flatMap terminated).length by
    unfold textSize
    rw [h, Nat.zero_add]
  induction texts with
  | nil => simp
  | cons s texts ih =>
    intro start
    rw [List.foldl_cons, ih, List.flatMap_cons, List.length_append, terminated, List.length_append,
      Text.length_bytes]
    simp only [List.length_singleton]
    omega

/-- The first string takes its bytes and a terminator. -/
theorem textSize_cons (s : String) (texts : List String) :
    textSize (s :: texts) = s.utf8ByteSize + 1 + textSize texts := by
  rw [← length_flatMap_terminated, ← length_flatMap_terminated, List.flatMap_cons,
    List.length_append]
  simp [terminated]

/-- The entry of a string states where those before it end. -/
theorem getElem?_entriesFrom (place : Nat) (texts : List String) (i : Nat) :
    (entriesFrom place texts)[i]? =
      texts[i]?.map fun s => (place + textSize (texts.take i), s.utf8ByteSize) := by
  induction texts generalizing place i with
  | nil => simp [entriesFrom]
  | cons s texts ih =>
    cases i with
    | zero => simp [entriesFrom, textSize]
    | succ i =>
      unfold entriesFrom
      rw [List.getElem?_cons_succ, ih, List.getElem?_cons_succ, List.take_succ_cons,
        textSize_cons]
      simp only [Nat.add_assoc]

/-- Every string has an entry. -/
theorem length_entriesFrom (place : Nat) (texts : List String) :
    (entriesFrom place texts).length = texts.length := by
  induction texts generalizing place with
  | nil => rfl
  | cons s texts ih => rw [entriesFrom, List.length_cons, ih, List.length_cons]

/-- The entries take eight bytes for each string. -/
theorem length_flatMap_encodedEntry (place : Nat) (texts : List String) :
    ((entriesFrom place texts).flatMap encodedEntry).length = 8 * texts.length := by
  simp [List.length_flatMap, length_entriesFrom, Nat.mul_comm]

/-- A table takes its count, its entries and its strings. -/
theorem length_written (texts : List String) :
    (written texts).length = 4 + 8 * texts.length + textSize texts := by
  unfold written
  rw [List.length_append, List.length_append, length_encode, length_flatMap_encodedEntry,
    length_flatMap_terminated, Nat.add_assoc]

/-- The number of bytes that the stored form of strings takes: those of the count, and for each
string its own, its entry and its terminator. -/
def storedSize : List String → Nat
  | [] => 4
  | s :: rest => 8 + s.utf8ByteSize + 1 + storedSize rest

/-- A table takes as many bytes as were counted before it was written. -/
theorem length_written_eq_storedSize (texts : List String) :
    (written texts).length = storedSize texts := by
  rw [length_written]
  induction texts with
  | nil => rfl
  | cons s texts ih =>
    rw [storedSize, ← ih, textSize_cons, List.length_cons]
    omega

/-- Strings of at most `most` bytes each. -/
theorem storedSize_le {texts : List String} {most : Nat} (h : ∀ s ∈ texts, s.utf8ByteSize ≤ most) :
    storedSize texts ≤ 4 + (9 + most) * texts.length := by
  induction texts with
  | nil => exact Nat.le_refl 4
  | cons s texts ih =>
    rw [List.forall_mem_cons] at h
    have hrest := ih h.2
    rw [storedSize, List.length_cons, Nat.mul_succ]
    omega

/-! ## Reading what is written -/

/-- Where string `i` is written. -/
def placeOf (texts : List String) (i : Nat) : Nat :=
  4 + 8 * texts.length + textSize (texts.take i)

/-- From its place on, the string stands with those behind it. -/
theorem drop_written (texts : List String) (i : Nat) :
    (written texts).drop (placeOf texts i) = (texts.drop i).flatMap terminated := by
  have hplace : (encode 4 texts.length ++
      ((entriesFrom (4 + 8 * texts.length) texts).flatMap encodedEntry ++
        (texts.take i).flatMap terminated)).length = placeOf texts i := by
    rw [List.length_append, List.length_append, length_encode, length_flatMap_encodedEntry,
      length_flatMap_terminated, placeOf, Nat.add_assoc]
  have hsplit : texts.flatMap terminated =
      (texts.take i).flatMap terminated ++ (texts.drop i).flatMap terminated := by
    rw [← List.flatMap_append, List.take_append_drop]
  unfold written
  rw [hsplit, ← List.append_assoc, ← List.append_assoc, List.append_assoc (encode _ _)]
  exact List.drop_left' hplace

/-- Where its entry is written, the place and the size of a string stand. -/
theorem exists_drop_written {texts : List String} {i : Nat} (hi : i < texts.length) :
    ∃ rest, (written texts).drop (4 + 8 * i) =
      encodedEntry (placeOf texts i, texts[i].utf8ByteSize) ++ rest := by
  have hentry := getElem?_entriesFrom (4 + 8 * texts.length) texts i
  rw [List.getElem?_eq_getElem hi, Option.map_some] at hentry
  obtain ⟨hlt, hentry⟩ := List.getElem?_eq_some_iff.mp hentry
  refine ⟨((entriesFrom (4 + 8 * texts.length) texts).drop (i + 1)).flatMap encodedEntry ++
    texts.flatMap terminated, ?_⟩
  unfold written
  rw [← List.drop_drop, List.drop_left' (length_encode 4 _),
    List.drop_append_of_le_length (by rw [length_flatMap_encodedEntry]; omega),
    drop_flatMap_of_length length_encodedEntry, List.drop_eq_getElem_cons hlt, List.flatMap_cons,
    hentry, List.append_assoc, placeOf]

variable {texts : List String} {i : Nat}

/-- The count is read back. -/
theorem count_written (fits : (written texts).length ≤ maxSize) :
    count (written texts) = texts.length := by
  apply numberAt_encode
  rw [length_written] at fits
  have : maxSize < Nat.pow 256 4 := by decide
  omega

/-- A string ends before what is written ends. -/
theorem placeOf_add_lt (hi : i < texts.length) :
    placeOf texts i + texts[i].utf8ByteSize < (written texts).length := by
  have hrest := congrArg List.length (drop_written texts i)
  rw [List.length_drop, List.drop_eq_getElem_cons hi, List.flatMap_cons, List.length_append,
    terminated, List.length_append, Text.length_bytes, List.length_singleton] at hrest
  omega

/-- An offset is read back as the place of the string. -/
theorem offset_written (fits : (written texts).length ≤ maxSize) (hi : i < texts.length) :
    offset (written texts) i = placeOf texts i := by
  obtain ⟨rest, hrest⟩ := exists_drop_written hi
  have hplace := placeOf_add_lt hi
  have : maxSize < Nat.pow 256 4 := by decide
  unfold offset
  rw [← Nat.add_zero (4 + 8 * i), ← numberAt_drop, hrest, encodedEntry, List.append_assoc,
    numberAt_encode (by omega)]

/-- A size is read back as that of the string. -/
theorem size_written (fits : (written texts).length ≤ maxSize) (hi : i < texts.length) :
    size (written texts) i = texts[i].utf8ByteSize := by
  obtain ⟨rest, hrest⟩ := exists_drop_written hi
  have hplace := placeOf_add_lt hi
  have : maxSize < Nat.pow 256 4 := by decide
  have hnext : 8 + 8 * i = 4 + 8 * i + 4 := by omega
  unfold size
  rw [hnext, ← numberAt_drop, hrest, encodedEntry, List.append_assoc,
    numberAt_encode_append _ _ (by omega), Nat.sub_self, numberAt_encode (by omega)]

/-- At its place, the bytes of a string are read back. -/
theorem content_written (fits : (written texts).length ≤ maxSize) (hi : i < texts.length) :
    content (written texts) i = Text.bytes texts[i] := by
  unfold content
  rw [offset_written fits hi, size_written fits hi, drop_written,
    List.drop_eq_getElem_cons hi, List.flatMap_cons, terminated, List.append_assoc]
  exact List.take_left' (Text.length_bytes _)

/-- The bytes of all strings are read back. -/
theorem contents_written (fits : (written texts).length ≤ maxSize) :
    contents (written texts) = texts.map Text.bytes := by
  apply List.ext_getElem
  · unfold contents
    rw [List.length_map, List.length_range, count_written fits, List.length_map]
  · intro i hi _
    rw [contents, List.length_map, List.length_range, count_written fits] at hi
    simp [contents, content_written fits hi]

/-- What is written for ascending strings is well-formed. -/
theorem wellFormed_written (fits : (written texts).length ≤ maxSize)
    (ascending : texts.Pairwise Text.Before) : WellFormed (written texts) where
  count_fits := by rw [length_written]; omega
  entries_fit := by rw [entriesEnd, count_written fits, length_written]; omega
  entriesEnd_le_offset i hi := by
    rw [count_written fits] at hi
    unfold entriesEnd
    rw [count_written fits, offset_written fits hi, placeOf]
    omega
  stop_lt i hi := by
    rw [count_written fits] at hi
    unfold stop
    rw [offset_written fits hi, size_written fits hi]
    exact placeOf_add_lt hi
  terminated i hi := by
    rw [count_written fits] at hi
    unfold stop
    rw [offset_written fits hi, size_written fits hi, ← List.getElem?_drop, drop_written,
      List.drop_eq_getElem_cons hi, List.flatMap_cons, Layout.terminated, ← Text.length_bytes]
    simp
  isText i hi := by
    rw [count_written fits] at hi
    exact ⟨texts[i], (content_written fits hi).symm⟩
  ascending := by
    rw [contents_written fits]
    exact List.pairwise_map.mpr ascending

end Layout

open Layout

/-! ## Writing -/

/-- Strings are written behind each other, each with its terminator. -/
theorem toList_putTexts (buf : Buffer) (texts : List String) :
    (putTexts buf texts).toList = buf.toList ++ texts.flatMap terminated := by
  unfold putTexts
  induction texts generalizing buf with
  | nil => simp
  | cons s texts ih =>
    rw [List.foldl_cons, ih, Buffer.toList_putUInt8, Buffer.toList_append, List.flatMap_cons,
      terminated]
    simp only [List.append_assoc]

/-- Places and sizes that fit four bytes are written as they are. -/
theorem toList_putEntries {place : Nat} {texts : List String}
    (fits : place + textSize texts ≤ maxSize) (buf : Buffer) :
    (putEntries place buf texts).toList =
      buf.toList ++ (entriesFrom place texts).flatMap encodedEntry := by
  induction texts generalizing place buf with
  | nil => simp [putEntries, entriesFrom]
  | cons s texts ih =>
    rw [textSize_cons] at fits
    have hplace : (UInt32.ofNat place).toNat = place :=
      UInt32.toNat_ofNat_of_lt' (by simp only [maxSize] at fits; omega)
    have hsize : (UInt32.ofNat s.utf8ByteSize).toNat = s.utf8ByteSize :=
      UInt32.toNat_ofNat_of_lt' (by simp only [maxSize] at fits; omega)
    unfold putEntries
    rw [ih (by omega), entriesFrom, List.flatMap_cons, encodedEntry,
      Buffer.toList_putUInt32, Buffer.toList_putUInt32, hplace, hsize, Nat.add_assoc]
    simp only [List.append_assoc]

/-- The buffer that is filled holds what is written. -/
theorem freeze_putTexts {texts : List String} (fits : (written texts).length ≤ maxSize) :
    (putTexts (putEntries (4 + 8 * texts.length)
      ((Buffer.withCapacity (4 + 8 * texts.length + textSize texts)).putUInt32
        (UInt32.ofNat texts.length)) texts) texts).freeze 0 =
      .ofArray (written texts).toArray 0 := by
  rw [length_written] at fits
  have hcount : (UInt32.ofNat texts.length).toNat = texts.length :=
    UInt32.toNat_ofNat_of_lt' (by simp only [maxSize] at fits; omega)
  rw [Buffer.freeze]
  congr 1
  rw [← Array.toList_inj, ← Buffer.toList, toList_putTexts, toList_putEntries fits,
    Buffer.toList_putUInt32, hcount, Buffer.toList_withCapacity, List.nil_append, written,
    List.append_assoc]

/-- Strings are written when they ascend and what is written is not too long. -/
theorem serialize_eq_ok_iff {texts : List String} {b : Bytes} :
    serialize texts = .ok b ↔
      texts.Pairwise Text.Before ∧ (written texts).length ≤ maxSize ∧
        b = .ofArray (written texts).toArray 0 := by
  unfold serialize checkArgument
  rw [← Text.isAscending_iff, length_written]
  by_cases ascending : Text.isAscending texts
  · rw [if_pos ascending, ok_bind]
    by_cases fits : 4 + 8 * texts.length + textSize texts ≤ maxSize
    · have hfrozen := freeze_putTexts (length_written texts ▸ fits)
      rw [if_neg (by omega)]
      simp only [hfrozen]
      simp [ascending, fits, eq_comm]
    · rw [if_pos (.inr (Nat.lt_of_not_le fits))]
      simp [fits]
  · simp [ascending]

/-- Ascending strings are refused only for being too long, and other strings as an argument. -/
theorem serialize_eq_error_iff {texts : List String} {e : Error} :
    serialize texts = .error e ↔
      if texts.Pairwise Text.Before then
        maxSize < (written texts).length ∧ e = .capacityExceeded "string_table" maxSize
      else e = .invalidArgument "strings" "must be strictly ascending" := by
  unfold serialize checkArgument
  simp only [← Text.isAscending_iff, length_written]
  by_cases ascending : Text.isAscending texts
  · rw [if_pos ascending, if_pos ascending, ok_bind]
    by_cases fits : 4 + 8 * texts.length + textSize texts ≤ maxSize
    · rw [if_neg (by omega)]
      simp [fits]
    · rw [if_pos (.inr (Nat.lt_of_not_le fits))]
      simp [Nat.lt_of_not_le fits, eq_comm]
  · rw [if_neg ascending, if_neg ascending]
    simp [eq_comm]

/-- A table that is read from what was written shows the strings that were written. -/
theorem exists_shows_of_serialize {texts : List String} {b : Bytes}
    (h : serialize texts = .ok b) : ∃ t, ofBytes b = .ok t ∧ t.Shows texts := by
  obtain ⟨ascending, fits, rfl⟩ := serialize_eq_ok_iff.mp h
  have hdata : (Bytes.ofArray (written texts).toArray 0).toList = written texts :=
    Bytes.toList_ofArray _ _
  have ht := ofBytes_eq_ok_iff.mpr ⟨hdata.symm ▸ wellFormed_written fits ascending, rfl⟩
  obtain ⟨shown, hshows, hcontents⟩ := exists_shows_of_ofBytes ht
  rw [hdata, contents_written fits] at hcontents
  obtain rfl : shown = texts :=
    (List.map_inj_right fun s u => Text.bytes_inj.mp).mp hcontents
  exact ⟨_, ht, hshows⟩

end PosDictionary.StringTable
