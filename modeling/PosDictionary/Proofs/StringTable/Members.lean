import Mathlib.Data.List.Dedup
import Mathlib.Data.List.Sort
import PosDictionary.Proofs.Sorting
import PosDictionary.Proofs.Texts
import PosDictionary.StringTable.Writer

/-!
# The members of a set of strings

A `StringSet` has as members the strings that were added to it. Sorted, they are strictly
ascending, so that the set is determined by its sorted list.
-/

namespace PosDictionary

namespace Text

/-- Strings are sorted by their bytes. -/
theorem sorted_eq (texts : List String) :
    sorted texts =
      (Sorting.sortedBy Prod.fst (texts.map fun s => (bytes s, s))).map Prod.snd := rfl

/-- Sorting moves texts and does nothing else. -/
theorem sorted_perm (texts : List String) : (sorted texts).Perm texts := by
  have hsorted := (List.mergeSort_perm (texts.map fun s => (bytes s, s))
    fun a b => decide (a.1 ≤ b.1)).map Prod.snd
  have htexts : (texts.map fun s => (bytes s, s)).map Prod.snd = texts := by
    simp [Function.comp_def]
  rwa [htexts] at hsorted

/-- Different texts are strictly ascending when they are sorted. -/
theorem pairwise_sorted {texts : List String} (nodup : texts.Nodup) :
    (sorted texts).Pairwise Before := by
  have hkeys : ∀ p ∈ Sorting.sortedBy Prod.fst (texts.map fun s => (bytes s, s)),
      p.1 = bytes p.2 := by
    intro p hp
    obtain ⟨s, -, rfl⟩ := List.mem_map.mp (List.mem_mergeSort.mp hp)
    rfl
  have hle : (sorted texts).Pairwise fun s t => bytes s ≤ bytes t := by
    rw [sorted_eq, List.pairwise_map]
    refine (Sorting.pairwise_sortedBy Prod.fst _).imp_of_mem fun hp hq h => ?_
    rwa [hkeys _ hp, hkeys _ hq] at h
  have hne : (sorted texts).Nodup := (sorted_perm texts).nodup_iff.mpr nodup
  refine (hle.and hne).imp fun h => ?_
  exact Std.lt_of_le_of_ne h.1 fun heq => h.2 (bytes_inj.mp heq)

end Text

namespace StringSet

/-- A set has what was inserted, besides what it had before. -/
theorem mem_insertAll {set : StringSet} {texts : List String} {s : String} :
    s ∈ (set.insertAll texts).members ↔ s ∈ texts ∨ s ∈ set.members := by
  unfold insertAll
  induction texts generalizing set with
  | nil => simp
  | cons t texts ih =>
    rw [List.foldl_cons, ih, insert, Std.HashSet.mem_insert, List.mem_cons, beq_iff_eq]
    grind

/-- Sorting neither loses nor adds a string. -/
theorem mem_toSortedList {set : StringSet} {s : String} :
    s ∈ set.toSortedList ↔ s ∈ set.members := by
  unfold toSortedList
  rw [(Text.sorted_perm _).mem_iff, Std.HashSet.mem_toList]

/-- The sorted strings ascend, since none is there twice. -/
theorem ascending_toSortedList (set : StringSet) : set.toSortedList.Pairwise Text.Before := by
  apply Text.pairwise_sorted
  refine List.Pairwise.imp ?_ (Std.HashSet.distinct_toList (m := set.members))
  intro s t h
  simpa using h

/-- The sorted strings of a list are those of the list. -/
theorem mem_toSortedList_ofList {texts : List String} {s : String} :
    s ∈ (ofList texts).toSortedList ↔ s ∈ texts := by
  rw [mem_toSortedList, ofList, mem_insertAll]
  simp [empty]

/-- Lists with the same members make the same set, and no others do. -/
theorem toSortedList_ofList_eq_iff {texts more : List String} :
    (ofList texts).toSortedList = (ofList more).toSortedList ↔ ∀ s, s ∈ texts ↔ s ∈ more := by
  constructor
  · intro heq s
    rw [← mem_toSortedList_ofList, heq, mem_toSortedList_ofList]
  · intro same
    refine (ascending_toSortedList _).eq_of_mem_iff (ascending_toSortedList _) fun s => ?_
    rw [mem_toSortedList_ofList, same, mem_toSortedList_ofList]

/-- The set of the members of a list has each of them once. -/
theorem toSortedList_ofList_perm (texts : List String) :
    (ofList texts).toSortedList.Perm texts.dedup := by
  have hnodup := (ascending_toSortedList (ofList texts)).nodup
  rw [List.perm_ext_iff_of_nodup hnodup texts.nodup_dedup]
  intro s
  rw [mem_toSortedList_ofList, List.mem_dedup]

/-- As many strings are sorted as the set has. -/
theorem length_toSortedList (set : StringSet) : set.toSortedList.length = set.len := by
  unfold toSortedList
  rw [(Text.sorted_perm _).length_eq, Std.HashSet.length_toList, len]

end StringSet

end PosDictionary
