import PosDictionary.Proofs.TokenArray.Acceptance
import PosDictionary.Proofs.TokenArray.Codec
import PosDictionary.Sample.Reversal

/-!
# Reversed token arrays

Where a token array is reversed in blocks of the size of a record, its records come in the opposite
order and each is as it was: `reverseBlocks_eq`. Their number and the strings that they refer to
stay, so that the array can lose nothing but the order of its records. It keeps that as well if no
two records differ in their POS, `wellFormed_reversed_iff`.

Otherwise the records begin with those of the greatest POS index, and the next one is out of order.
It carries the greatest POS index below that one, and its ordinal is the number of the records
before it: `checkSorted_of_descending`.
-/

namespace PosDictionary

/-! ## Reversed blocks -/

namespace Sample

/-- What is put together from the last place to the first has the parts in the opposite order. -/
theorem toList_foldr_append {α : Type} (part : Nat → Array α) (places : List Nat) :
    (places.foldr (fun i out => out ++ part i) #[]).toList =
      places.reverse.flatMap fun i => (part i).toList := by
  induction places with
  | nil => rfl
  | cons i places ih =>
    rw [List.foldr_cons, Array.toList_append, ih, List.reverse_cons, List.flatMap_append,
      List.flatMap_singleton]

/-- The blocks are those of the data, the last one first. -/
theorem toList_blocksReversed (data : Array UInt8) (size count : Nat) :
    (blocksReversed data size count).toList =
      (List.range count).reverse.flatMap fun i => (data.toList.drop (i * size)).take size := by
  unfold blocksReversed
  rw [toList_foldr_append]
  refine List.flatMap_congr fun i _ => ?_
  rw [Array.toList_extract, List.extract_eq_take_drop, Nat.add_sub_cancel_left]

end Sample

namespace TokenArray

open TokenRecord

variable {count : Nat} {data : List UInt8} {records : List TokenRecord}

/-- Bytes that divide into records are reversed to the stored form of the reversed records. -/
theorem reverseBlocks_eq {data : Array UInt8} (whole : data.toList.length % 8 = 0) :
    Sample.reverseBlocks data TokenRecord.size =
      .ok (encodeAll (Layout.records data.toList).reverse).data := by
  have hblock : ∀ i ∈ (List.range (data.toList.length / 8)).reverse,
      (Layout.record data.toList i).encoded = (data.toList.drop (i * 8)).take 8 := by
    intro i hi
    rw [Nat.mul_comm i]
    exact encoded_record (List.mem_range.mp (List.mem_reverse.mp hi))
  have hsize : data.size % TokenRecord.size = 0 := whole
  unfold Sample.reverseBlocks
  rw [if_neg (by decide), if_neg (not_not.mpr hsize)]
  refine congrArg Except.ok (Array.toList_inj.mp ?_)
  show _ = (encodeAll (Layout.records data.toList).reverse).toList
  rw [Sample.toList_blocksReversed, toList_encodeAll, Layout.records, ← List.map_reverse,
    List.flatMap_map, List.flatMap_congr hblock]
  rfl

/-- Reversing twice changes nothing. -/
theorem reverseBlocks_reversed {data : Array UInt8} (whole : data.toList.length % 8 = 0) :
    Sample.reverseBlocks (encodeAll (Layout.records data.toList).reverse).data TokenRecord.size =
      .ok data := by
  rw [reverseBlocks_eq]
  · refine congrArg Except.ok (Array.toList_inj.mp ?_)
    rw [← Buffer.toList, ← Buffer.toList, records_encodeAll, List.reverse_reverse,
      toList_encodeAll_records whole]
  · rw [← Buffer.toList, length_encodeAll, Nat.mul_mod_right]

/-! ## What is kept -/

/-- The records are all of one POS. -/
def SamePos (records : List TokenRecord) : Prop :=
  ∀ r ∈ records, ∀ s ∈ records, r.posIndex = s.posIndex

instance (records : List TokenRecord) : Decidable (SamePos records) :=
  inferInstanceAs (Decidable (∀ r ∈ records, ∀ s ∈ records, r.posIndex = s.posIndex))

/-- Reversed records have one id if they have it. -/
theorem samePos_reverse_iff : SamePos records.reverse ↔ SamePos records := by
  simp only [SamePos, List.mem_reverse]

/-- Records in the order of their POS are in the opposite order too if they are all of one POS. -/
theorem pairwise_reverse_iff_samePos
    (sorted : records.Pairwise fun r s => r.posIndex ≤ s.posIndex) :
    records.reverse.Pairwise (fun r s => r.posIndex ≤ s.posIndex) ↔ SamePos records := by
  rw [List.pairwise_reverse]
  constructor
  · intro descending
    have hle := sorted.forall_of_forall_of_flip (fun r _ => Std.le_refl r.posIndex) descending
    intro r hr s hs
    exact Std.le_antisymm (hle hr hs) (hle hs hr)
  · intro same
    apply List.pairwise_of_forall_mem_list
    intro r hr s hs
    exact Std.le_of_eq (same s hs r hr)

/-- A reversed token array is one again if its records are all of one POS. -/
theorem wellFormed_reversed_iff (wf : Layout.WellFormed count data) :
    Layout.WellFormed count (encodeAll (Layout.records data).reverse).toList ↔
      SamePos (Layout.records data) := by
  rw [← pairwise_reverse_iff_samePos wf.sorted]
  constructor
  · intro reversed
    have hsorted := reversed.sorted
    rwa [records_encodeAll] at hsorted
  · intro hsorted
    refine { whole := ?_, refersBelow := ?_, sorted := ?_ }
    · rw [length_encodeAll, Nat.mul_mod_right]
    · rw [records_encodeAll]
      exact fun r hr => wf.refersBelow r (List.mem_reverse.mp hr)
    · rwa [records_encodeAll]

/-! ## Where the order is lost -/

/-- The two greatest POS indices of records. -/
@[mk_iff] structure TopIds (records : List TokenRecord) (greatest next : UInt16) : Prop where
  /-- Some record carries the greatest one. -/
  greatest_mem : ∃ r ∈ records, r.posIndex = greatest
  /-- No record carries a greater one. -/
  le_greatest : ∀ r ∈ records, r.posIndex ≤ greatest
  /-- Some record carries the next one. -/
  next_mem : ∃ r ∈ records, r.posIndex = next
  /-- It is below the greatest one. -/
  next_lt : next < greatest
  /-- There is none between the two. -/
  le_next : ∀ r ∈ records, r.posIndex < greatest → r.posIndex ≤ next

/-- Reversed records have the same greatest ids. -/
theorem topIds_reverse_iff {greatest next : UInt16} :
    TopIds records.reverse greatest next ↔ TopIds records greatest next := by
  simp only [topIds_iff, List.mem_reverse]

/-- How the record at `ordinal` is reported that carries `id` and comes after one that carries
`prev`. -/
def orderError (ordinal : Nat) (id prev : UInt16) : Error :=
  .invalidFormat "token_array" s!"record {ordinal} has POS index {id} after {prev}"

/-- The check passes records of the POS that came before them, and reports one of a lower POS behind
them. -/
theorem checkSorted_of_lower {id : UInt16} {same : List TokenRecord}
    (hsame : ∀ r ∈ same, r.posIndex = id) {lower : TokenRecord} (hlower : lower.posIndex < id)
    (rest : List TokenRecord) (ordinal : Nat) :
    checkSorted ordinal id (same ++ lower :: rest) =
      .error (orderError (ordinal + same.length) lower.posIndex id) := by
  induction same generalizing ordinal with
  | nil =>
    rw [List.nil_append, checkSorted, if_pos hlower]
    rfl
  | cons r same ih =>
    obtain ⟨hr, hsame⟩ := List.forall_mem_cons.mp hsame
    rw [List.cons_append, checkSorted, hr, if_neg Std.lt_irrefl, ih hsame, List.length_cons,
      Nat.add_right_comm, Nat.add_assoc]

/-- Records of several POS, in the opposite order, are refused where those of the greatest POS index
end. -/
theorem checkSorted_of_descending
    (descending : records.Pairwise fun r s => s.posIndex ≤ r.posIndex)
    (several : ¬ SamePos records) :
    ∃ greatest next, TopIds records greatest next ∧ checkSorted 0 0 records =
      .error (orderError (records.countP (·.posIndex = greatest)) next greatest) := by
  cases records with
  | nil =>
    refine absurd ?_ several
    intro r hr
    cases hr
  | cons first rest =>
    obtain ⟨hfirst, hrest⟩ := List.pairwise_cons.mp descending
    rcases Rules.all_or_firstBroken (fun r => r.posIndex = first.posIndex) rest with
      hall | ⟨lower, same, behind, rfl, hsame, hother⟩
    · refine absurd ?_ several
      have hall : ∀ r ∈ first :: rest, r.posIndex = first.posIndex :=
        List.forall_mem_cons.mpr ⟨rfl, hall⟩
      intro r hr s hs
      exact (hall r hr).trans (hall s hs).symm
    · have hmem : lower ∈ same ++ lower :: behind :=
        List.mem_append_right same List.mem_cons_self
      have hlower : lower.posIndex < first.posIndex :=
        Std.lt_of_le_of_ne (hfirst lower hmem) hother
      -- From the record that is reported on, no record carries an id above its own.
      have hbehind : ∀ r ∈ lower :: behind, r.posIndex ≤ lower.posIndex :=
        List.forall_mem_cons.mpr
          ⟨Std.le_refl _, (List.pairwise_cons.mp (List.pairwise_append.mp hrest).2.1).1⟩
      have hcount : (first :: (same ++ lower :: behind)).countP (·.posIndex = first.posIndex) =
          0 + 1 + same.length := by
        have hnone : (lower :: behind).countP (·.posIndex = first.posIndex) = 0 := by
          refine List.countP_eq_zero.mpr fun r hr => ?_
          simpa using Std.ne_of_lt (Std.lt_of_le_of_lt (hbehind r hr) hlower)
        have hall : same.countP (·.posIndex = first.posIndex) = same.length :=
          List.countP_eq_length.mpr fun r hr => decide_eq_true (hsame r hr)
        rw [List.countP_cons_of_pos (by simp), List.countP_append, hnone, hall]
        omega
      refine ⟨first.posIndex, lower.posIndex, ?_, ?_⟩
      · exact {
          greatest_mem := ⟨first, List.mem_cons_self, rfl⟩
          le_greatest := List.forall_mem_cons.mpr ⟨Std.le_refl _, hfirst⟩
          next_mem := ⟨lower, List.mem_cons_of_mem _ hmem, rfl⟩
          next_lt := hlower
          le_next := by
            intro r hr hlt
            rw [List.mem_cons, List.mem_append] at hr
            rcases hr with rfl | hr | hr
            · exact absurd hlt Std.lt_irrefl
            · exact absurd (hsame r hr) (Std.ne_of_lt hlt)
            · exact hbehind r hr }
      · rw [checkSorted, if_neg UInt16.not_lt_zero, checkSorted_of_lower hsame hlower, hcount]

end TokenArray

end PosDictionary
