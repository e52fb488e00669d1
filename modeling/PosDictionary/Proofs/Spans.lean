import PosDictionary.Search

/-!
# Spans without gaps

Spans that lie one behind the other from one position to another and leave none out: `Span.Tile`.
The items in such spans are all items between the two, each once and in their order,
`Tile.flatMap_eq`.
-/

namespace PosDictionary.Span

/-- The spans lie one behind the other from `start` to `stop`, without gaps, and none is empty. -/
def Tile : Nat → List Span → Nat → Prop
  | start, [], stop => start = stop
  | start, span :: rest, stop =>
    span.start = start ∧ span.start < span.stop ∧ Tile span.stop rest stop

/-- Spans that tile a range do not run backwards. -/
theorem Tile.le {start stop : Nat} {spans : List Span} (h : Tile start spans stop) :
    start ≤ stop := by
  induction spans generalizing start with
  | nil => exact Nat.le_of_eq h
  | cons span rest ih =>
    obtain ⟨rfl, hlt, hrest⟩ := h
    exact Nat.le_trans (Nat.le_of_lt hlt) (ih hrest)

/-- The items in spans without gaps are all items between their ends. -/
theorem Tile.flatMap_eq {α : Type} (items : List α) {start stop : Nat} {spans : List Span}
    (h : Tile start spans stop) :
    spans.flatMap (fun span => (items.drop span.start).take span.size) =
      (items.drop start).take (stop - start) := by
  induction spans generalizing start with
  | nil =>
    obtain rfl : start = stop := h
    simp
  | cons span rest ih =>
    obtain ⟨rfl, hlt, hrest⟩ := h
    have hstop := hrest.le
    have hsplit : stop - span.start = span.size + (stop - span.stop) := by
      rw [Span.size]
      omega
    have hnext : span.start + span.size = span.stop := by
      rw [Span.size]
      omega
    rw [List.flatMap_cons, ih hrest, hsplit, List.take_add, List.drop_drop, hnext]

/-- No position is in two spans, and those of an earlier span come first. -/
theorem Tile.pairwise {start stop : Nat} {spans : List Span} (h : Tile start spans stop) :
    spans.Pairwise fun r s => r.stop ≤ s.start := by
  suffices hordered : (∀ s ∈ spans, start ≤ s.start) ∧
      spans.Pairwise fun r s => r.stop ≤ s.start from hordered.2
  induction spans generalizing start with
  | nil => simp
  | cons span rest ih =>
    obtain ⟨rfl, hlt, hrest⟩ := h
    obtain ⟨hbehind, hordered⟩ := ih hrest
    refine ⟨List.forall_mem_cons.mpr ⟨Nat.le_refl _, fun s hs => ?_⟩,
      List.pairwise_cons.mpr ⟨hbehind, hordered⟩⟩
    exact Nat.le_trans (Nat.le_of_lt hlt) (hbehind s hs)

end PosDictionary.Span
