import Mathlib.Algebra.Ring.Nat
import PosDictionary.Proofs.ByteViews

/-!
# Parts of views

A part of a view is checked against the length of the view and is read in its owner. The check is
enough because a view lies inside its owner, however it was made: each part lies inside the view it
was taken from, at the sum of the places at which the parts were taken, `sliceThrough_eq_ok`.

`CutsBetween` says what the part between two bounds is. A part of a part is a part of the view that
is taken directly. Whether views are the same region is a question of addresses only. Two parts of
one owner are if they have the same place and the same length. Parts of different owners may be
too, and as long as both owners are there, they show one memory, `Owner.LiesIn`; so the same region
always shows the same bytes: `parts_stay_inside_and_compose`.
-/

namespace PosDictionary

open Outcome

namespace Bound

/-! ## Positions between bounds -/

/-- A range with this lower bound may have position `i`. -/
def AdmitsFrom : Bound → Nat → Prop
  | .unbounded, _ => True
  | .included n, i => n ≤ i
  | .excluded n, i => n < i

/-- A range with this upper bound may have position `i`, in a view of `len` bytes. -/
def AdmitsTo (len : Nat) : Bound → Nat → Prop
  | .unbounded, i => i < len
  | .included n, i => i ≤ n
  | .excluded n, i => i < n

/-- An index is behind the start of a range if the lower bound admits it. -/
theorem asStart_le_iff {lower : Bound} {i : Nat} : lower.asStart ≤ i ↔ lower.AdmitsFrom i := by
  cases lower with
  | unbounded => exact iff_of_true (Nat.zero_le i) trivial
  | included n => exact Iff.rfl
  | excluded n => exact Nat.succ_le_iff

/-- An index is before the stop of a range if the upper bound admits it. -/
theorem lt_asStop_iff {upper : Bound} {len i : Nat} :
    i < upper.asStop len ↔ upper.AdmitsTo len i := by
  cases upper with
  | unbounded => exact Iff.rfl
  | included n => exact Nat.lt_succ_iff
  | excluded n => exact Iff.rfl

end Bound

namespace Bytes

variable {b c d : Bytes} {lower upper : Bound}

/-! ## One part -/

/-- A view is its place in its owner. -/
theorem eq_iff : b = c ↔ b.owner = c.owner ∧ b.offset = c.offset ∧ b.len = c.len := by
  cases b
  cases c
  rw [Bytes.mk.injEq]

/-- A part is taken if its ends lie in the view, and then its place is counted from there. -/
theorem slice_eq_ok_iff {start stop : Nat} : b.slice start stop = .ok c ↔
    (start ≤ stop ∧ stop ≤ b.len) ∧
      c.owner = b.owner ∧ c.offset = b.offset + start ∧ c.len = stop - start := by
  unfold slice
  split
  next inside => rw [Except.ok.injEq, eq_comm, eq_iff, and_iff_right inside]
  next outside => exact iff_of_false (by simp) fun h => outside h.1

/-- A slice fails only when its range is not one of the view, and says so. -/
theorem slice_eq_error_iff {start stop : Nat} {f : Fault} : b.slice start stop = .error f ↔
    f = .sliceOutOfBounds start stop b.len ∧ ¬ (start ≤ stop ∧ stop ≤ b.len) := by
  unfold slice
  split
  next inside => exact iff_of_false (by simp) fun h => h.2 inside
  next outside => rw [Except.error.injEq, eq_comm, and_iff_left outside]

/-- A part of a part is a part of the view. -/
theorem slice_of_slice {start stop start' stop' : Nat} (hc : b.slice start stop = .ok c)
    (hd : c.slice start' stop' = .ok d) : b.slice (start + start') (start + stop') = .ok d := by
  obtain ⟨⟨hle, hstop⟩, howner, hoffset, hlen⟩ := slice_eq_ok_iff.mp hc
  obtain ⟨⟨hle', hstop'⟩, howner', hoffset', hlen'⟩ := slice_eq_ok_iff.mp hd
  apply slice_eq_ok_iff.mpr
  refine ⟨⟨Nat.add_le_add_left hle' start, by omega⟩, howner'.trans howner, ?_, ?_⟩
  · rw [hoffset', hoffset, Nat.add_assoc]
  · rw [hlen', Nat.add_sub_add_left]

/-! ## Equal views and equal regions -/

/-- Views are equal if their bytes are, wherever these lie. -/
theorem beq_iff : (b == c) = true ↔ b.toList = c.toList := by
  show (b.toArray == c.toArray) = true ↔ _
  rw [beq_iff_eq, ← Array.toList_inj]
  rfl

/-- The region of a view is its address and its length. -/
theorem sameRegion_iff : b.sameRegion c = true ↔ b.len = c.len ∧ b.address = c.address := by
  rw [sameRegion, Bool.and_eq_true, beq_iff_eq, beq_iff_eq]

/-- Views of one owner are the same region when they have the same place in it. -/
theorem sameRegion_iff_of_owner_eq (shared : b.owner = c.owner) :
    b.sameRegion c = true ↔ b.offset = c.offset ∧ b.len = c.len := by
  rw [sameRegion_iff, address, address, shared, Nat.add_left_cancel_iff, and_comm]

/-- The same region of one owner is the same view. -/
theorem eq_of_sameRegion (shared : b.owner = c.owner) (same : b.sameRegion c = true) : b = c :=
  eq_iff.mpr ⟨shared, (sameRegion_iff_of_owner_eq shared).mp same⟩

end Bytes

/-- What the owner holds is what a memory holds at its addresses. -/
def Owner.LiesIn (memory : Nat → UInt8) (owner : Owner) : Prop :=
  ∀ (i : Nat) (h : i < owner.data.size), owner.data[i] = memory (owner.address + i)

namespace Bytes

variable {b c d : Bytes} {lower upper : Bound} {memory : Nat → UInt8}

/-- A view shows what the memory holds from its address on. -/
theorem toList_eq_of_liesIn (held : b.owner.LiesIn memory) :
    b.toList = (List.range b.len).map fun i => memory (b.address + i) := by
  have inside := b.within
  apply List.ext_getElem
  · rw [length_toList, List.length_map, List.length_range]
  · intro i hi _
    rw [length_toList] at hi
    rw [List.getElem_map, List.getElem_range, address, Nat.add_assoc,
      ← held (b.offset + i) (by omega)]
    simp [toList, toArray]

/-- In one memory, the same region shows the same bytes, whoever owns them. -/
theorem beq_of_sameRegion (held : b.owner.LiesIn memory) (held' : c.owner.LiesIn memory)
    (same : b.sameRegion c = true) : (b == c) = true := by
  obtain ⟨hlen, haddress⟩ := sameRegion_iff.mp same
  rw [beq_iff, toList_eq_of_liesIn held, toList_eq_of_liesIn held', hlen, haddress]

/-! ## Parts of parts -/

/-- The views that are made anew. A copy of a view is the view itself. -/
inductive IsNew : Bytes → Prop where
  /-- A view without bytes. -/
  | empty : IsNew empty
  /-- A view of memory that is held elsewhere. -/
  | ofOwner (owner : Owner) : IsNew (ofOwner owner)
  /-- A view of bytes that are handed over. -/
  | ofArray (data : Array UInt8) (segment : Nat) : IsNew (ofArray data segment)
  /-- A view of what a buffer holds. -/
  | freeze (buf : Buffer) (segment : Nat) : IsNew (buf.freeze segment)

/-- A new view shows all bytes of its owner. -/
theorem IsNew.eq_ofOwner (h : b.IsNew) : b = .ofOwner b.owner := by
  cases h <;> rfl

/-- Takes the part between two bounds, a part of that part, and so on. -/
def sliceThrough (root : Bytes) (chain : List (Bound × Bound)) : Except Fault Bytes :=
  chain.foldlM (fun part bounds => part.sliceBetween bounds.1 bounds.2) root

/-- Parts of parts have the owner of the first view, lie inside of it, and begin where the steps
from one to the next lead. -/
theorem sliceThrough_eq_ok {root : Bytes} {chain : List (Bound × Bound)}
    (h : root.sliceThrough chain = .ok b) :
    b.owner = root.owner ∧
      b.offset = root.offset + (chain.map fun bounds => bounds.1.asStart).sum ∧
      b.offset + b.len ≤ root.offset + root.len := by
  unfold sliceThrough at h
  induction chain generalizing root with
  | nil =>
    cases h
    exact ⟨rfl, rfl, Nat.le_refl _⟩
  | cons bounds chain ih =>
    rw [List.foldlM_cons] at h
    obtain ⟨part, hpart, h⟩ := bind_eq_ok.mp h
    obtain ⟨⟨hle, hstop⟩, howner, hoffset, hlen⟩ := slice_eq_ok_iff.mp hpart
    obtain ⟨howner', hoffset', hinside⟩ := ih h
    refine ⟨howner'.trans howner, ?_, by omega⟩
    rw [hoffset', hoffset, List.map_cons, List.sum_cons, Nat.add_assoc]

/-- What the part of a view between two bounds is. -/
structure CutsBetween (b : Bytes) (lower upper : Bound) : Prop where
  /-- The positions between the bounds are a range. -/
  positions : ∀ i, lower.AdmitsFrom i ∧ upper.AdmitsTo b.len i ↔
    lower.asStart ≤ i ∧ i < upper.asStop b.len
  /-- The part is refused if the ends of this range are in the wrong order or outside the view, and
  only then. -/
  refused_iff : ∀ f, b.sliceBetween lower upper = .error f ↔
    f = .sliceOutOfBounds lower.asStart (upper.asStop b.len) b.len ∧
      ¬ (lower.asStart ≤ upper.asStop b.len ∧ upper.asStop b.len ≤ b.len)
  /-- Otherwise it shows the bytes in the range. -/
  shown : lower.asStart ≤ upper.asStop b.len → upper.asStop b.len ≤ b.len →
    ∃ c, b.sliceBetween lower upper = .ok c ∧
      c.toList = (b.toList.drop lower.asStart).take (upper.asStop b.len - lower.asStart)
  /-- A part of it can be taken from the view as well. -/
  composed : ∀ c lower' upper' d, b.sliceBetween lower upper = .ok c →
    c.sliceBetween lower' upper' = .ok d →
      ∃ e, b.slice (lower.asStart + lower'.asStart) (lower.asStart + upper'.asStop c.len) = .ok e ∧
        (d == e) = true ∧ d.sameRegion e = true

/-- Every pair of bounds cuts a view as it should. -/
theorem cutsBetween (b : Bytes) (lower upper : Bound) : b.CutsBetween lower upper where
  positions _ := and_congr Bound.asStart_le_iff.symm Bound.lt_asStop_iff.symm
  refused_iff _ := slice_eq_error_iff
  shown hle hstop := by
    obtain ⟨c, hc, -, hlist⟩ := slice_of_le hle hstop
    exact ⟨c, hc, hlist⟩
  composed _ _ _ d hc hd :=
    ⟨d, slice_of_slice hc hd, beq_iff.mpr rfl, sameRegion_iff.mpr ⟨rfl, rfl⟩⟩

/-- **Parts of views stay inside and compose.** Parts of parts of a new view lie in its owner, and
show the bytes of the owner at their place. Of any view, the part between two bounds is refused
exactly if the range between them does not lie in the view; otherwise it shows the bytes there, and
its own parts are parts of the view. Views of one owner are the same region if and only if they
have the same place and length, and then they are equal. Views of different owners that are the same
region are equal as well, since their owners hold what the one memory holds there. -/
theorem parts_stay_inside_and_compose :
    (∀ root chain b, IsNew root → root.sliceThrough chain = .ok b →
      b.owner = root.owner ∧ b.offset = (chain.map fun bounds => bounds.1.asStart).sum ∧
        b.offset + b.len ≤ root.owner.data.size ∧ b.toList.length = b.len ∧
        b.toList = (root.owner.data.toList.drop b.offset).take b.len) ∧
    (∀ (b : Bytes) lower upper, b.CutsBetween lower upper) ∧
    (∀ b c : Bytes, b.owner = c.owner →
      (b.sameRegion c = true ↔ b.offset = c.offset ∧ b.len = c.len) ∧
        (b.sameRegion c = true → (b == c) = true)) ∧
    ∀ (memory : Nat → UInt8) (b c : Bytes), b.owner.LiesIn memory → c.owner.LiesIn memory →
      b.sameRegion c = true → (b == c) = true := by
  refine ⟨?_, cutsBetween, fun b c shared => ⟨sameRegion_iff_of_owner_eq shared, ?_⟩,
    fun memory b c => beq_of_sameRegion⟩
  · intro root chain b hroot h
    obtain ⟨howner, hoffset, hinside⟩ := sliceThrough_eq_ok h
    rw [hroot.eq_ofOwner, ofOwner, Nat.zero_add] at hoffset hinside
    exact ⟨howner, hoffset, hinside, length_toList b, howner ▸ toList_eq b⟩
  · intro same
    rw [eq_of_sameRegion shared same]
    exact beq_iff.mpr rfl

/-- A memory of which the bytes from 4096 on count up. -/
def countingMemory (address : Nat) : UInt8 := UInt8.ofNat (address - 4096)

/-- Eight bytes, each of which is its position. -/
def eightBytes : Bytes := ofOwner ⟨4096, #[0, 1, 2, 3, 4, 5, 6, 7]⟩

/-- The part of `eightBytes` from 3 up to and with 5. -/
def threeBytes : Bytes where
  owner := eightBytes.owner
  offset := 3
  len := 3
  within := by decide

/-- The same three bytes, all that another owner holds. -/
def ownThreeBytes : Bytes := ofOwner ⟨4099, #[3, 4, 5]⟩

/-- Three bytes cut from eight, and three bytes of another owner that lie at the same address. -/
theorem parts_stay_inside_and_compose_threeBytes :
    eightBytes.IsNew ∧
      eightBytes.sliceThrough [(.excluded 0, .unbounded), (.included 2, .included 4)] =
        .ok threeBytes ∧
      threeBytes.offset + threeBytes.len ≤ eightBytes.owner.data.size ∧
      threeBytes.toList = (eightBytes.owner.data.toList.drop 3).take 3 ∧
    threeBytes.owner = eightBytes.owner ∧
      (threeBytes.sameRegion eightBytes = true ↔ 3 = 0 ∧ 3 = 8) ∧
    threeBytes.owner ≠ ownThreeBytes.owner ∧ threeBytes.owner.LiesIn countingMemory ∧
      ownThreeBytes.owner.LiesIn countingMemory ∧ threeBytes.sameRegion ownThreeBytes = true ∧
      (threeBytes == ownThreeBytes) = true := by
  obtain ⟨hchain, -, howned, hmemory⟩ := parts_stay_inside_and_compose
  have new : eightBytes.IsNew := .ofOwner _
  have taken : eightBytes.sliceThrough [(.excluded 0, .unbounded), (.included 2, .included 4)] =
    .ok threeBytes := by rfl
  obtain ⟨howner, -, hinside, -, hlist⟩ := hchain _ _ _ new taken
  have held : threeBytes.owner.LiesIn countingMemory := by
    unfold Owner.LiesIn
    decide
  have held' : ownThreeBytes.owner.LiesIn countingMemory := by
    unfold Owner.LiesIn
    decide
  have same : threeBytes.sameRegion ownThreeBytes = true := by rfl
  exact ⟨new, taken, hinside, hlist, howner, (howned _ _ howner).1, by decide, held, held', same,
    hmemory countingMemory _ _ held held' same⟩

end Bytes

end PosDictionary
