import PosDictionary.PosIndex.DistinctIds
import PosDictionary.Proofs.Cursors

/-!
# The ids that are given

The ids that are left to a `DistinctIds` are the POS indices of the records that are left, with
runs of equal ids collapsed to one, `collapse`. All of them are collected, `toList_eq`. Where the
records are in the order of their POS, these are the ids that occur, strictly ascending.
-/

namespace PosDictionary.DistinctIds

/-! ## Runs of equal ids -/

/-- The ids without those that equal the id before them; `last` stands before the first. -/
def collapse (last : Option UInt16) : List UInt16 → List UInt16
  | [] => []
  | id :: ids => if last = some id then collapse last ids else id :: collapse (some id) ids

/-- Of each run one id is left. -/
theorem mem_of_mem_collapse {last : Option UInt16} {ids : List UInt16} {id : UInt16}
    (h : id ∈ collapse last ids) : id ∈ ids := by
  induction ids generalizing last with
  | nil => exact h
  | cons first ids ih =>
    unfold collapse at h
    split at h
    · exact List.mem_cons_of_mem _ (ih h)
    · rcases List.mem_cons.mp h with rfl | h
      · exact List.mem_cons_self
      · exact List.mem_cons_of_mem _ (ih h)

/-- Collapsing drops an id only where it follows itself. -/
theorem mem_collapse_of_mem {last : Option UInt16} {ids : List UInt16} {id : UInt16}
    (h : id ∈ ids) : last = some id ∨ id ∈ collapse last ids := by
  induction ids generalizing last with
  | nil => cases h
  | cons first ids ih =>
    unfold collapse
    rcases List.mem_cons.mp h with rfl | h
    · by_cases hlast : last = some id
      · exact .inl hlast
      · exact .inr (by simp [hlast])
    · split
      · exact ih h
      · rcases @ih (some first) h with heq | hmem
        · cases heq
          exact .inr List.mem_cons_self
        · exact .inr (List.mem_cons_of_mem _ hmem)

/-- Collapsing from the start loses no id. -/
theorem mem_collapse_none {ids : List UInt16} {id : UInt16} :
    id ∈ collapse none ids ↔ id ∈ ids :=
  ⟨mem_of_mem_collapse, fun h => (mem_collapse_of_mem h).resolve_left (by simp)⟩

/-- Ids in order are strictly ascending when runs are collapsed. -/
theorem pairwise_collapse {last : Option UInt16} {ids : List UInt16}
    (h : (last.toList ++ ids).Pairwise (· ≤ ·)) :
    (last.toList ++ collapse last ids).Pairwise (· < ·) := by
  induction ids generalizing last with
  | nil => cases last <;> simp [collapse]
  | cons first ids ih =>
    unfold collapse
    split
    next hlast => exact ih (h.sublist (by simp))
    next hlast =>
      cases last with
      | none => exact @ih (some first) h
      | some before =>
        obtain ⟨hbefore, hrest⟩ := List.pairwise_cons.mp h
        have ih := @ih (some first) hrest
        have hlt : before < first := by
          apply UInt16.lt_of_le_of_ne (hbefore first List.mem_cons_self)
          intro heq
          exact hlast (congrArg some heq)
        refine List.pairwise_cons.mpr ⟨?_, ih⟩
        intro id hid
        rcases List.mem_cons.mp hid with rfl | hid
        · exact hlt
        · exact UInt16.lt_trans hlt ((List.pairwise_cons.mp ih).1 id hid)

/-! ## Ids one by one -/

/-- The ids that are left. -/
def left (d : DistinctIds) : List UInt16 :=
  collapse d.last (d.records.toList.map TokenRecord.posIndex)

/-- The next id is the first that is left. -/
theorem fst_next (d : DistinctIds) : d.next.1 = d.left.head? := by
  fun_induction next d with
  | case1 d records h => rw [left, (Cursor.toList_of_next_eq_none h).1]; rfl
  | case2 d r records h hlast ih =>
    rw [ih, left, left, Cursor.toList_of_next_eq_some h, List.map_cons, collapse, if_pos hlast]
  | case3 d r records h hlast =>
    unfold left
    rw [Cursor.toList_of_next_eq_some h, List.map_cons, collapse, if_neg hlast]
    rfl

/-- Behind the next id, the others are left. -/
theorem left_snd_next (d : DistinctIds) : d.next.2.left = d.left.tail := by
  fun_induction next d with
  | case1 d records h =>
    obtain ⟨hbefore, hafter⟩ := Cursor.toList_of_next_eq_none h
    rw [left, left, hbefore, hafter]
    rfl
  | case2 d r records h hlast ih =>
    rw [ih, left, left, Cursor.toList_of_next_eq_some h, List.map_cons, collapse, if_pos hlast]
  | case3 d r records h hlast =>
    rw [left, left, Cursor.toList_of_next_eq_some h, List.map_cons, collapse, if_neg hlast]
    rfl

/-- All ids that are left are collected. -/
theorem collect_eq (d : DistinctIds) (taken : Array UInt16) :
    (d.collect taken).1.toList = taken.toList ++ d.left := by
  fun_induction collect d taken with
  | case1 d taken rest h =>
    have hfirst := fst_next d
    rw [h, eq_comm, List.head?_eq_none_iff] at hfirst
    rw [hfirst, List.append_nil]
  | case2 d taken id rest h ih =>
    have hfirst := fst_next d
    have hrest := left_snd_next d
    rw [h, eq_comm, List.head?_eq_some_iff] at hfirst
    obtain ⟨tail, htail⟩ := hfirst
    rw [h, htail] at hrest
    rw [ih, htail, hrest, Array.toList_push, List.append_assoc]
    rfl

/-- The ids that are given are those that are left. -/
theorem toList_eq (d : DistinctIds) : d.toList = d.left := by
  unfold toList
  rw [collect_eq]
  rfl

end PosDictionary.DistinctIds
