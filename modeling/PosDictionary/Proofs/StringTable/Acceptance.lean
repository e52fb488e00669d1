import PosDictionary.Proofs.StringTable.Layout
import PosDictionary.StringTable.Basic

/-!
# Which bytes are string tables

`StringTable.ofBytes` accepts exactly the bytes that are `WellFormed`, and reports the first broken
rule of all others. Each part of the procedure is compared with the rules that it stands for: the
check of an entry with its four rules, the check of two neighbours with one. The checks read the
data at places that earlier rules have put inside it, so each comparison assumes those.
-/

namespace PosDictionary.StringTable

open Layout Outcome

variable {b : Bytes} {n i : Nat}

/-! ## Reading a table -/

/-- The entries end where the header says. -/
theorem headerEnd_count (data : List UInt8) : headerEnd (count data) = entriesEnd data := by
  simp only [headerEnd, entriesEnd, entrySize, countSize]
  omega

/-- An entry is the offset and the size that are stored. -/
theorem entry_eq (fits : 4 + 8 * n ≤ b.len) (hi : i < n) :
    entry ⟨b, n⟩ i = .ok (offset b.toList i, Layout.size b.toList i) := by
  have hplace : countSize + i * entrySize = 4 + 8 * i := by simp only [countSize, entrySize]; omega
  have hnext : 4 + 8 * i + 4 = 8 + 8 * i := by omega
  rw [entry]
  simp only [hplace, hnext]
  rw [Bytes.getUInt32_of_le (by omega), Bytes.getUInt32_of_le (by omega)]
  simp only [ok_bind, Bytes.toNat_numberAt]
  rfl

/-- The bytes of an entry that lies inside are its content. -/
theorem bytesAt_eq (fits : 4 + 8 * n ≤ b.len) (hi : i < n) (inside : stop b.toList i ≤ b.len) :
    ∃ c, bytesAt ⟨b, n⟩ i = .ok c ∧ c.toList = content b.toList i := by
  obtain ⟨c, hc, -, hlist⟩ := Bytes.slice_of_le (Nat.le_add_right _ _) inside
  refine ⟨c, ?_, ?_⟩
  · unfold bytesAt
    rw [entry_eq fits hi, ok_bind]
    exact hc
  · rw [hlist, content, Nat.add_sub_cancel_left]

/-- The key of an entry that lies inside is its content. -/
theorem keyAt_eq (fits : 4 + 8 * n ≤ b.len) (hi : i < n) (inside : stop b.toList i ≤ b.len) :
    keyAt ⟨b, n⟩ i = .ok (content b.toList i) := by
  obtain ⟨c, hc, hlist⟩ := bytesAt_eq fits hi inside
  unfold keyAt
  rw [hc, ok_bind, hlist]
  rfl

/-! ## Checks and rules -/

/-- Judging by rules of a table. -/
abbrev judge (data : List UInt8) (rules : List Rule) : Except Failure Unit :=
  Rules.judge (Rule.Holds data) (fun r => (r.violation data).toError) rules

/-- Nothing is reported where no violation is. -/
theorem unless_of_holds {p : Prop} [Decidable p] (v : Violation) (h : p) :
    v.unless p = .ok () := if_pos h

/-- A violation is reported as its error. -/
theorem unless_of_broken {p : Prop} [Decidable p] (v : Violation) (h : ¬ p) :
    v.unless p = .error (.error v.toError) := if_neg h

/-- A check asks the first of some rules when what follows it, where that rule holds, asks the
others. -/
theorem unless_bind_eq_judge {p : Prop} [Decidable p] {α : Type} {data : List UInt8} {r : Rule}
    {rest : List Rule} {next final : Unit → Except Failure α} (same : p ↔ r.Holds data)
    (kept : r.Holds data → next () = (judge data rest >>= final)) :
    ((r.violation data).unless p >>= next) = (judge data (r :: rest) >>= final) := by
  by_cases h : r.Holds data
  · rw [unless_of_holds _ (same.mpr h), ok_bind, kept h, judge, judge, Rules.judge_cons_of_holds h]
  · rw [unless_of_broken _ fun hp => h (same.mp hp), judge, Rules.judge_cons_of_broken h]
    rfl

/-- The check of an entry asks the four rules for it. -/
theorem checkEntry_eq (fits : entriesEnd b.toList ≤ b.len) (hi : i < count b.toList) :
    checkEntry ⟨b, count b.toList⟩ i = judge b.toList (entryRules i) := by
  unfold checkEntry
  rw [entry_eq fits hi, ← bind_pure (judge _ _)]
  apply unless_bind_eq_judge (r := .behindEntries i) (by rw [headerEnd_count, Rule.Holds])
  intro _
  refine unless_bind_eq_judge (r := .inside i) (by simp [Rule.Holds, stop]) ?_
  intro hinside
  rw [Rule.Holds] at hinside
  rw [← stop, Bytes.get_of_lt hinside]
  refine unless_bind_eq_judge (r := .terminated i) ?_ fun _ => ?_
  · rw [Rule.Holds, List.getElem?_eq_getElem hinside, Option.some_inj]
  obtain ⟨c, hc, -, hlist⟩ := Bytes.slice_of_le (Nat.le_add_right _ _)
    (Nat.le_of_lt (b.length_toList ▸ hinside))
  have hcontent : c.toArray.toList = content b.toList i := by
    rw [← Bytes.toList, hlist, content, Nat.add_sub_cancel_left]
  unfold stop
  rw [hc]
  -- The last rule is no comparison but the verdict of the decoder.
  by_cases htext : Text.IsText (content b.toList i)
  · obtain ⟨s, hs⟩ := htext
    have hrule : (Rule.isText i).Holds b.toList := ⟨s, hs⟩
    unfold judge
    rw [Rules.judge_cons_of_holds hrule]
    simp only [ok_bind, Failure.ofFault_ok, Utf8.decode_eq_ok_iff.mpr (hs.trans hcontent.symm)]
    rfl
  · have hrule : ¬ (Rule.isText i).Holds b.toList := htext
    unfold judge
    rw [Rules.judge_cons_of_broken hrule]
    simp only [ok_bind, Failure.ofFault_ok, Utf8.decode_of_not_isText (hcontent ▸ htext), hcontent]
    rfl

/-- The check of two neighbours asks the rule for them. -/
theorem checkOrder_eq (fits : entriesEnd b.toList ≤ b.len)
    (inside : ∀ j < count b.toList, stop b.toList j < b.len) (hi : i < count b.toList - 1) :
    checkOrder ⟨b, count b.toList⟩ i = judge b.toList [.ordered i] := by
  unfold checkOrder
  rw [keyAt_eq fits (by omega) (Nat.le_of_lt (inside i (by omega))),
    keyAt_eq fits (by omega) (Nat.le_of_lt (inside (i + 1) (by omega)))]
  simp only [Failure.ofFault_ok, ok_bind]
  rw [← bind_pure (Violation.unless _ _), ← bind_pure (judge _ _)]
  exact unless_bind_eq_judge (r := .ordered i) Iff.rfl fun _ => rfl

/-! ## Accepting data -/

/-- Data is accepted by judging it by its rules. -/
theorem ofBytes_eq_judge (b : Bytes) :
    ofBytes b = (judge b.toList (rules b.toList) >>= fun _ => .ok ⟨b, count b.toList⟩) := by
  unfold ofBytes rules
  rw [List.cons_append, List.cons_append, List.nil_append]
  apply unless_bind_eq_judge (r := .countFits) (by simp [Rule.Holds, countSize])
  intro hcount
  rw [Bytes.getUInt32_of_le (by simpa [Rule.Holds] using hcount)]
  simp only [Failure.ofFault_ok, ok_bind, Bytes.toNat_numberAt]
  rw [← count]
  apply unless_bind_eq_judge (r := .entriesFit) (by simp [headerEnd_count, Rule.Holds])
  intro hentries
  have fits : entriesEnd b.toList ≤ b.len := by simpa [Rule.Holds] using hentries
  have hentry : forM (List.range (count b.toList)) (checkEntry ⟨b, count b.toList⟩) =
      judge b.toList ((List.range (count b.toList)).flatMap entryRules) := by
    unfold judge
    rw [Rules.judge_flatMap]
    exact forM_congr fun i hi => checkEntry_eq fits (List.mem_range.mp hi)
  rw [List.forM_eq_forM, hentry, judge, judge, Rules.judge_append, bind_assoc]
  apply bind_congr_of_ok
  intro _ hkept
  have inside : ∀ j < count b.toList, stop b.toList j < b.len := by
    intro j hj
    have hrule := Rules.judge_eq_ok_iff.mp hkept (.inside j)
      (List.mem_flatMap.mpr ⟨j, List.mem_range.mpr hj, by simp [entryRules]⟩)
    simpa [Rule.Holds] using hrule
  have horder : forM (List.range (count b.toList - 1)) (checkOrder ⟨b, count b.toList⟩) =
      judge b.toList ((List.range (count b.toList - 1)).map Rule.ordered) := by
    rw [List.map_eq_flatMap, judge, Rules.judge_flatMap]
    exact forM_congr fun i hi => checkOrder_eq fits inside (List.mem_range.mp hi)
  rw [horder]
  rfl

end PosDictionary.StringTable
