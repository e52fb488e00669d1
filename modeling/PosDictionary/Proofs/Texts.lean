import Mathlib.Data.List.Chain
import Mathlib.Data.List.Nodup
import Mathlib.Data.List.Perm.Subperm
import PosDictionary.Text.ByteOrder
import PosDictionary.Text.Utf8

/-!
# Texts and their bytes

`IsText` says of bytes that they are the UTF-8 form of a text. `Utf8.decode` reads exactly these
bytes, and reads back the text. The order of texts is that of their bytes, and is a strict total
order, since different texts have different bytes.
-/

namespace PosDictionary

namespace Text

/-- The bytes are the UTF-8 form of some text. -/
def IsText (data : List UInt8) : Prop := ∃ s, bytes s = data

/-- Bytes are those of a string if they are its encoding. -/
theorem bytes_eq_iff {s : String} {data : List UInt8} :
    bytes s = data ↔ s.toByteArray = ⟨data.toArray⟩ := by
  constructor
  · rintro rfl
    simp [bytes]
  · intro h
    simp [bytes, h]

/-- Bytes are a text if they are valid UTF-8. -/
theorem isText_iff {data : List UInt8} :
    IsText data ↔ ByteArray.IsValidUTF8 ⟨data.toArray⟩ := by
  constructor
  · rintro ⟨s, hs⟩
    exact bytes_eq_iff.mp hs ▸ s.isValidUTF8
  · intro h
    exact ⟨String.fromUTF8 _ h, bytes_eq_iff.mpr rfl⟩

instance : DecidablePred IsText := fun _ => decidable_of_iff _ isText_iff.symm

/-- A string has as many bytes as its size says. -/
@[simp] theorem length_bytes (s : String) : (bytes s).length = s.utf8ByteSize := by
  simp [bytes]

/-- A character takes at most four bytes. -/
theorem utf8ByteSize_le (s : String) : s.utf8ByteSize ≤ 4 * s.toList.length := by
  induction s using String.push_induction with
  | empty => exact Nat.le_refl 0
  | push s c ih =>
    have hsize : c.utf8Size ≤ 4 := Char.utf8Size_le_four c
    rw [String.utf8ByteSize_push, String.toList_push, List.length_append, List.length_singleton]
    omega

/-! ## The order of texts -/

/-- No string comes before itself. -/
theorem before_irrefl (s : String) : ¬ Before s s := Std.lt_irrefl

/-- What comes before a string comes before those behind it. -/
theorem before_trans {s t u : String} (hst : Before s t) (htu : Before t u) : Before s u :=
  Std.lt_trans hst htu

instance : Std.Asymm Before := ⟨fun s _ hst hts => before_irrefl s (before_trans hst hts)⟩

/-- The bytes of strings that ascend do not decrease. -/
theorem pairwise_map_bytes {texts : List String} (h : texts.Pairwise Before) :
    (texts.map bytes).Pairwise (· ≤ ·) :=
  List.pairwise_map.mpr (h.imp Std.le_of_lt)

/-- The place of a text is that of its bytes. -/
theorem idxOf?_map_bytes (texts : List String) (s : String) :
    (texts.map bytes).idxOf? (bytes s) = texts.idxOf? s := by
  rw [List.idxOf?, List.findIdx?_map]
  congr 1
  funext t
  simp [bytes_inj]

/-- A string of a list is found in it. -/
theorem idxOf?_of_mem {texts : List String} {s : String} (hs : s ∈ texts) :
    texts.idxOf? s = some (texts.idxOf s) := by
  obtain ⟨i, hi⟩ := Option.isSome_iff_exists.mp (List.isSome_idxOf?.mpr hs)
  rw [List.idxOf_eq_getD_idxOf?, hi, Option.getD_some]

/-- Of different texts, each stands at one place only. -/
theorem idxOf?_eq_some_iff {texts : List String} (nodup : texts.Nodup) {s : String} {i : Nat} :
    texts.idxOf? s = some i ↔ texts[i]? = some s := by
  rw [List.idxOf?_eq_some_iff, List.getElem?_eq_some_iff]
  refine exists_congr fun hi => and_iff_left_of_imp ?_
  intro hs j hj hjs
  have := (List.getElem_inj nodup).mp (hjs.trans hs.symm)
  omega

instance : Trans Before Before Before := ⟨before_trans⟩

/-- Comparing neighbours decides whether all strings ascend. -/
theorem isAscending_iff {texts : List String} : isAscending texts ↔ texts.Pairwise Before := by
  rw [← List.isChain_iff_pairwise]
  fun_induction isAscending texts with
  | case1 => simp
  | case2 s => simp
  | case3 s t rest ih => rw [Bool.and_eq_true, decide_eq_true_iff, ih, List.isChain_cons_cons]

/-! ## Ranks

The place of a text among ascending texts is its rank: the number of those that come before it. -/

/-- In order, a string is at the index that counts those before it. -/
theorem idxOf_eq_countP {texts : List String} (h : texts.Pairwise Before) {s : String}
    (hs : s ∈ texts) : texts.idxOf s = texts.countP fun t => Before t s := by
  induction texts with
  | nil => cases hs
  | cons t texts ih =>
    obtain ⟨ht, htexts⟩ := List.pairwise_cons.mp h
    by_cases heq : t = s
    · subst heq
      have hnone : texts.countP (fun u => Before u t) = 0 := by
        rw [List.countP_eq_zero]
        intro u hu hut
        exact before_irrefl t (before_trans (ht u hu) (of_decide_eq_true hut))
      rw [List.idxOf_cons_self, List.countP_cons, if_neg (by simpa using before_irrefl t), hnone]
    · have hs : s ∈ texts := (List.mem_cons.mp hs).resolve_left fun h => heq h.symm
      rw [List.idxOf_cons_ne _ heq, List.countP_cons, if_pos (decide_eq_true (ht s hs)),
        ih htexts hs]

/-- In order, what comes before has the lesser index. -/
theorem idxOf_lt_idxOf {texts : List String} (h : texts.Pairwise Before) {s t : String}
    (hs : s ∈ texts) (ht : t ∈ texts) (hst : Before s t) : texts.idxOf s < texts.idxOf t := by
  have hslt := List.idxOf_lt_length_of_mem hs
  have htlt := List.idxOf_lt_length_of_mem ht
  rcases Nat.lt_trichotomy (texts.idxOf s) (texts.idxOf t) with hlt | heq | hgt
  · exact hlt
  · have : s = t := by rw [← List.getElem_idxOf hslt, ← List.getElem_idxOf htlt]; simp only [heq]
    exact absurd (this ▸ hst) (before_irrefl s)
  · have hts := List.pairwise_iff_getElem.mp h _ _ htlt hslt hgt
    rw [List.getElem_idxOf, List.getElem_idxOf] at hts
    exact absurd (before_trans hst hts) (before_irrefl s)

/-- Among fewer texts, no text has a greater rank. -/
theorem idxOf_le_idxOf_of_subset {texts more : List String} (h : texts.Pairwise Before)
    (hmore : more.Pairwise Before) (sub : texts ⊆ more) {s : String} (hs : s ∈ texts) :
    texts.idxOf s ≤ more.idxOf s := by
  rw [idxOf_eq_countP h hs, idxOf_eq_countP hmore (sub hs)]
  exact (List.subperm_of_subset h.nodup sub).countP_le _

end Text

namespace Utf8

/-- Bytes are decoded as the string of which they are the encoding. -/
theorem decode_eq_ok_iff {data : Array UInt8} {s : String} :
    decode data = .ok s ↔ Text.bytes s = data.toList := by
  rw [Text.bytes_eq_iff, decode, String.fromUTF8?]
  by_cases h : ByteArray.IsValidUTF8 ⟨data⟩
  · rw [dif_pos h]
    simp only [Except.ok.injEq, ← String.toByteArray_inj]
    exact eq_comm
  · rw [dif_neg h]
    simp only [reduceCtorEq, false_iff]
    intro heq
    exact h (heq ▸ s.isValidUTF8)

/-- Bytes that are no text are refused for the place where reading them fails. -/
theorem decode_of_not_isText {data : Array UInt8} (h : ¬ Text.IsText data.toList) :
    decode data = .error (firstFault data.toList 0) := by
  rw [Text.isText_iff, Array.toArray_toList] at h
  unfold decode
  rw [String.fromUTF8?, dif_neg h]

end Utf8

end PosDictionary
