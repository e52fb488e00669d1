import PosDictionary.Proofs.Json.Enclosures
import PosDictionary.Proofs.Json.Numbers

/-!
# Values that are read back

A value is read back from its text if it is not nested too deep, `reads_value`.
-/

namespace PosDictionary.Json

/-- Items are written one by one. -/
theorem writeItems_eq (items : List Value) : writeItems items = items.map Value.write := by
  induction items with
  | nil => rfl
  | cons v items ih => exact congrArg (_ :: ·) ih

/-- Members are written one by one. -/
theorem writeMembers_eq (members : List (String × Value)) :
    writeMembers members = members.map fun m => member m.1 m.2.write := by
  induction members with
  | nil => rfl
  | cons m members ih => exact congrArg (_ :: ·) ih

/-- A reader that is chosen by the first character reads what the chosen one reads. -/
theorem Reads.byHead {α : Type} {choose : Option Char → Reader α} {text : List Char} {a : α}
    {c : Char} (hhead : text.head? = some c) (h : Reads (choose (some c)) text a) :
    Reads (Reader.byHead choose) text a where
  starts := h.starts
  read_append rest hrest := by
    obtain ⟨c', s, rfl, hblank, -⟩ := h.starts
    obtain rfl : c' = c := Option.some.inj hhead
    simp only [Reader.byHead]
    rw [List.cons_append, dropBlanks_cons hblank]
    exact h.read_append rest hrest

/-- A string or a number is read at any depth. -/
theorem reads_scalar {text : List Char} {v : Value} {c : Char} (hhead : text.head? = some c)
    (h : Reads (scalarReader (some c)) text v) (hlist : c ≠ '[') (hobject : c ≠ '{') (depth : Nat) :
    Reads (valueReader depth) text v := by
  cases depth with
  | zero => exact h.byHead hhead
  | succ depth =>
    refine Reads.byHead hhead ?_
    rw [if_neg (by simpa using hlist), if_neg (by simpa using hobject)]
    exact h

/-- **Values are read back.** A value that is nested at most so deep is read back from its text. -/
theorem reads_value {depth : Nat} {v : Value} (h : v.NestedWithin depth) :
    Reads (valueReader depth) v.write v := by
  induction h with
  | string depth value =>
    have hread : Reads (scalarReader (some '"')) (Text.write value) (.string value) :=
      (reads_string value).map_eq rfl
    exact reads_scalar rfl hread (by decide) (by decide) depth
  | number depth value =>
    obtain ⟨c, digits, heq, hc⟩ := Number.exists_toDigits_eq_cons value.toNat
    have hhead : (Nat.repr value.toNat).toList.head? = some c := by
      rw [Nat.toList_repr, heq]
      rfl
    have hne : ∀ mark : Char, mark.isDigit = false → c ≠ mark := by
      rintro mark hmark rfl
      exact absurd hc (Bool.eq_false_iff.mp hmark)
    have hread : Reads (scalarReader (some c)) (Nat.repr value.toNat).toList (.number value) := by
      rw [scalarReader, if_neg (by simpa using hne '"' rfl)]
      exact (reads_uint64 value).map_eq rfl
    exact reads_scalar hhead hread (hne '[' rfl) (hne '{' rfl) depth
  | list _ ih =>
    refine Reads.byHead rfl (Reads.map_eq ?_ rfl)
    rw [Value.write, writeItems_eq]
    exact reads_list (List.forall₂_map_left_iff.mpr (List.forall₂_same.mpr ih))
  | object _ ih =>
    refine Reads.byHead rfl (Reads.map_eq ?_ rfl)
    rw [Value.write, writeMembers_eq]
    exact reads_object ih

end PosDictionary.Json
