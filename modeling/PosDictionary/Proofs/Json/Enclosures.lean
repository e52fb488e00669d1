import Mathlib.Data.List.Forall2
import PosDictionary.Json.ValueText
import PosDictionary.Proofs.Json.Readers
import PosDictionary.Proofs.Outcomes

/-!
# Lists and objects that are read back

The parts of a list or of an object are separated by commas, `separated_cons`, and read one by one:
behind the parts seen so far, the texts of further parts are read as these parts, `readParts_tail`.
So a list is read back if its items are, `reads_list`, and an object is read as its members in the
order in which they are written if their values are, `reads_object`.
-/

namespace PosDictionary.Json

open Outcome

/-! ## Parts -/

/-- The parts that follow another one, each behind its comma. -/
def tailOf (parts : List (List Char)) : List Char := parts.flatMap fun part => ',' :: part

/-- Every further part begins with a comma. -/
theorem tailOf_cons (part : List Char) (parts : List (List Char)) (rest : Rest) :
    tailOf (part :: parts) ++ rest = ',' :: (part ++ (tailOf parts ++ rest)) := by
  simp [tailOf]

/-- Parts with commas between them are the first part and the further ones. -/
theorem separated_cons (part : List Char) (parts : List (List Char)) :
    separated (part :: parts) = part ++ tailOf parts := by
  induction parts generalizing part with
  | nil => simp [separated, tailOf]
  | cons next parts ih =>
    have hsep : separated (part :: next :: parts) = part ++ ',' :: separated (next :: parts) := by
      simp [separated]
    rw [hsep, ih]
    rfl

/-- What stands behind a part may stand behind a value. -/
theorem behind_tailOf (parts : List (List Char)) {close : Char} (h : close = ']' ∨ close = '}')
    (rest : Rest) : Behind (tailOf parts ++ close :: rest) := by
  cases parts with
  | nil => exact behind_cons (.inr h) rest
  | cons part parts =>
    rw [tailOf_cons]
    exact behind_cons (.inl rfl) _

namespace Enclosure

variable {α : Type} {e : Enclosure} {part : Reader α} {seen : Array α} {s place rest : Rest} {a : α}
  {texts : List (List Char)} {parts : List α}

/-- Where no part follows, the parts are those that have been seen. -/
theorem readParts_of_close (h : e.next seen.isEmpty s = .ok none)
    (hclose : readClose e.closing s = .ok rest) :
    e.readParts part seen s = .ok (seen.toList, rest) := by
  rw [readParts]
  split
  next h' => rw [h] at h'; cases h'
  next => rw [hclose]; rfl
  next h' => rw [h] at h'; cases h'

/-- Where a part follows, it is read, and then the others. -/
theorem readParts_of_part (h : e.next seen.isEmpty s = .ok (some place))
    (hpart : part.read place = .ok (a, rest)) :
    e.readParts part seen s = e.readParts part (seen.push a) rest := by
  rw [readParts]
  split
  next h' => rw [h] at h'; cases h'
  next h' => rw [h] at h'; cases h'
  next place' h' =>
    rw [h] at h'
    cases h'
    split
    next h'' => rw [hpart] at h''; cases h''
    next h'' => rw [hpart] at h''; cases h''; rfl

/-- The text is taken for the part, be it the first one or behind a comma. -/
structure ReadsPart (e : Enclosure) (part : Reader α) (text : List Char) (a : α) : Prop where
  /-- The first part is found, and read. -/
  first : ∀ rest, Behind rest → ∃ place, e.next true (text ++ rest) = .ok (some place) ∧
    part.read place = .ok (a, rest)
  /-- A further part is found, and read. -/
  further : ∀ rest, Behind rest → ∃ place, e.next false (',' :: (text ++ rest)) = .ok (some place) ∧
    part.read place = .ok (a, rest)

/-- The closing mark is read. -/
theorem readClose_closing (ends : e.closing = ']' ∨ e.closing = '}') (rest : Rest) :
    readClose e.closing (e.closing :: rest) = .ok rest := by
  rcases ends with h | h <;> rw [h] <;> rfl

/-- Behind some parts, the texts of more parts are read as these. -/
theorem readParts_tail (ends : e.closing = ']' ∨ e.closing = '}')
    (h : List.Forall₂ (e.ReadsPart part) texts parts) (hseen : seen.isEmpty = false) (rest : Rest) :
    e.readParts part seen (tailOf texts ++ e.closing :: rest) =
      .ok (seen.toList ++ parts, rest) := by
  induction h generalizing seen with
  | nil =>
    rw [List.append_nil]
    exact readParts_of_close (e.next_closing _ _) (readClose_closing ends rest)
  | @cons text a texts parts htext _ ih =>
    obtain ⟨place, hnext, hread⟩ := htext.further _ (behind_tailOf texts ends rest)
    rw [tailOf_cons, readParts_of_part (hseen ▸ hnext) hread, ih (by simp), Array.toList_push,
      List.append_assoc]
    rfl

/-- The parts are read behind the opening mark. -/
theorem readParts_separated (ends : e.closing = ']' ∨ e.closing = '}')
    (h : List.Forall₂ (e.ReadsPart part) texts parts) (rest : Rest) :
    e.readParts part #[] (separated texts ++ e.closing :: rest) = .ok (parts, rest) := by
  cases h with
  | nil => exact readParts_of_close (e.next_closing _ _) (readClose_closing ends rest)
  | @cons text a texts parts htext htexts =>
    obtain ⟨place, hnext, hread⟩ := htext.first _ (behind_tailOf texts ends rest)
    have hempty : (#[] : Array α).isEmpty = true := rfl
    rw [separated_cons, List.append_assoc, readParts_of_part (hempty ▸ hnext) hread]
    exact readParts_tail ends htexts rfl rest

/-- Texts that are taken for parts are, between the marks, a text for all of these. -/
theorem reads_write (starts : isBlank e.opening = false ∧ e.opening ≠ ']')
    (ends : e.closing = ']' ∨ e.closing = '}')
    (h : List.Forall₂ (e.ReadsPart part) texts parts) :
    Reads (e.reader part) (e.write texts) parts where
  starts := ⟨e.opening, _, rfl, starts⟩
  read_append rest _ := by
    have hwrite : e.write texts ++ rest =
        e.opening :: (separated texts ++ e.closing :: rest) := by simp [write]
    simp only [reader]
    rw [hwrite, dropBlanks_cons starts.1]
    exact (if_pos rfl).trans (readParts_separated ends h rest)

end Enclosure

/-! ## Lists -/

section Lists

variable {α : Type} {item : Reader α} {text : List Char} {a : α}

/-- A text that stands for an item is taken for it. -/
theorem Reads.readsPart (h : Reads item text a) : brackets.ReadsPart item text a := by
  obtain ⟨c, s, rfl, hblank, hclose⟩ := h.starts
  refine ⟨fun rest hrest => ⟨_, ?_, h.read_append rest hrest⟩,
    fun rest hrest => ⟨_, ?_, h.read_append rest hrest⟩⟩
  · show nextItem true (c :: (s ++ rest)) = _
    rw [nextItem, dropBlanks_cons hblank]
    exact if_neg hclose
  · show nextItem false (',' :: c :: (s ++ rest)) = _
    rw [nextItem, dropBlanks_cons rfl]
    simp [dropBlanks_cons hblank, hclose]

/-- Texts that stand for items are, as a list, a text for the list of these. -/
theorem reads_list {texts : List (List Char)} {items : List α}
    (h : List.Forall₂ (Reads item) texts items) :
    Reads (listReader item) (brackets.write texts) items :=
  Enclosure.reads_write ⟨rfl, by decide⟩ (.inl rfl) (h.imp fun _ _ => Reads.readsPart)

end Lists

/-! ## Objects -/

section Objects

variable {α : Type} {value : Reader α} {text : List Char} {a : α}

/-- A member begins with the quote of its name. -/
theorem member_append (name : String) (text : List Char) (rest : Rest) :
    member name text ++ rest =
      '"' :: (name.toList.flatMap Text.escape ++ '"' :: ':' :: (text ++ rest)) := by
  rw [member, List.append_assoc, List.append_assoc, Text.write_append]
  rfl

/-- The first key follows the brace. -/
theorem nextKey_first (rest : Rest) : Schema.nextKey true ('"' :: rest) = .ok (some rest) := by
  rw [Schema.nextKey, dropBlanks_cons rfl]
  rfl

/-- Every other key follows a comma. -/
theorem nextKey_comma (rest : Rest) :
    Schema.nextKey false (',' :: '"' :: rest) = .ok (some rest) := by
  rw [Schema.nextKey, dropBlanks_cons rfl]
  rfl

/-- A member is taken for its name and the value that its text stands for. -/
theorem Reads.readsPart_member (h : Reads value text a) (name : String) :
    braces.ReadsPart (memberReader value) (member name text) (name, a) := by
  have hmember : ∀ rest, Behind rest → (memberReader value).read
      (name.toList.flatMap Text.escape ++ '"' :: ':' :: (text ++ rest)) = .ok ((name, a), rest) := by
    intro rest hrest
    have hcolon : readColon (':' :: (text ++ rest)) = .ok (text ++ rest) := rfl
    simp only [memberReader, Text.read_write, hcolon, h.read_append rest hrest]
  refine ⟨fun rest hrest => ⟨_, ?_, hmember rest hrest⟩,
    fun rest hrest => ⟨_, ?_, hmember rest hrest⟩⟩
  · rw [member_append]
    exact nextKey_first _
  · rw [member_append]
    exact nextKey_comma _

/-- Members whose texts stand for their values are, as an object, a text for these members. -/
theorem reads_object {members : List (String × α)} {textOf : α → List Char}
    (h : ∀ m ∈ members, Reads value (textOf m.2) m.2) :
    Reads (objectReader value) (braces.write (members.map fun m => member m.1 (textOf m.2)))
      members := by
  refine Enclosure.reads_write ⟨rfl, by decide⟩ (.inr rfl) ?_
  rw [List.forall₂_map_left_iff]
  exact List.forall₂_same.mpr fun m hm => (h m hm).readsPart_member m.1

end Objects

end PosDictionary.Json
