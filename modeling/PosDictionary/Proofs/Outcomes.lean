import Mathlib.Data.List.Forall2
import PosDictionary.Event
import PosDictionary.Failure

/-!
# Outcomes of sequenced operations

Every operation on stored data ends in an `Except`. The lemmas here take a sequence of operations
apart: `bind_eq_ok` for two steps, `mapM_eq_ok_iff` for one step repeated along a list, and their
forms for the positions of a list, where the step at a position gives the item at it.

A computation that is `Traced` also reports events. It is taken apart in the same way, and what its
steps report is appended.
-/

namespace PosDictionary.Outcome

variable {ε α β : Type}

/-! ## Two steps -/

@[simp] theorem ok_bind (a : α) (f : α → Except ε β) : (Except.ok a >>= f) = f a := rfl

@[simp] theorem error_bind (e : ε) (f : α → Except ε β) :
    (Except.error e >>= f) = .error e := rfl

@[simp] theorem pure_eq_ok (a : α) : (pure a : Except ε α) = .ok a := rfl

@[simp] theorem map_ok (f : α → β) (a : α) : f <$> (Except.ok a : Except ε α) = .ok (f a) := rfl

/-- Two steps give a value when each of them does. -/
theorem bind_eq_ok {x : Except ε α} {f : α → Except ε β} {b : β} :
    (x >>= f) = .ok b ↔ ∃ a, x = .ok a ∧ f a = .ok b := by
  cases x <;> simp

/-- Two steps fail when the first does, or the second after it. -/
theorem bind_eq_error {x : Except ε α} {f : α → Except ε β} {e : ε} :
    (x >>= f) = .error e ↔ x = .error e ∨ ∃ a, x = .ok a ∧ f a = .error e := by
  cases x <;> simp

/-- A value that is changed was given before. -/
theorem map_eq_ok {x : Except ε α} {f : α → β} {b : β} :
    f <$> x = .ok b ↔ ∃ a, x = .ok a ∧ f a = b := by
  cases x with
  | ok a => simp
  | error e => simp [Functor.map, Except.map]

/-- The second step matters only where the first gives a value. -/
theorem bind_congr_of_ok {x : Except ε α} {f g : α → Except ε β}
    (h : ∀ a, x = .ok a → f a = g a) : (x >>= f) = (x >>= g) := by
  cases x with
  | ok a => exact h a rfl
  | error e => rfl

/-! ## A step along a list -/

/-- A step along a list gives the values that it gives at each item. -/
theorem mapM_eq_ok_iff {f : α → Except ε β} {as : List α} {bs : List β} :
    as.mapM f = .ok bs ↔ List.Forall₂ (fun a b => f a = .ok b) as bs := by
  induction as generalizing bs with
  | nil => simp [eq_comm]
  | cons a as ih =>
    rw [List.mapM_cons, List.forall₂_cons_left_iff]
    constructor
    · intro h
      obtain ⟨b, hb, h⟩ := bind_eq_ok.mp h
      obtain ⟨rest, hrest, h⟩ := bind_eq_ok.mp h
      cases h
      exact ⟨b, rest, hb, ih.mp hrest, rfl⟩
    · rintro ⟨b, rest, hb, hrest, rfl⟩
      simp [hb, ih.mpr hrest]

/-- A step that gives `g a` at every item of a list maps the list by `g`. -/
theorem mapM_eq_ok_map {f : α → Except ε β} {g : α → β} {as : List α}
    (h : ∀ a ∈ as, f a = .ok (g a)) : as.mapM f = .ok (as.map g) := by
  rw [mapM_eq_ok_iff, List.forall₂_map_right_iff]
  exact List.forall₂_same.mpr h

/-- Steps that agree at every item of a list give the same along it. -/
theorem mapM_congr {f g : α → Except ε β} {as : List α} (h : ∀ a ∈ as, f a = g a) :
    as.mapM f = as.mapM g := by
  induction as with
  | nil => rfl
  | cons a as ih =>
    obtain ⟨ha, has⟩ := List.forall_mem_cons.mp h
    rw [List.mapM_cons, List.mapM_cons, ha, ih has]

/-- Steps that agree at every item of a list agree along it. -/
theorem forM_congr {f g : α → Except ε PUnit} {as : List α} (h : ∀ a ∈ as, f a = g a) :
    forM as f = forM as g := by
  induction as with
  | nil => rfl
  | cons a as ih =>
    obtain ⟨ha, has⟩ := List.forall_mem_cons.mp h
    rw [List.forM_cons, List.forM_cons, ha, ih has]

/-- Steps along a list succeed when each of them does. -/
theorem forM_eq_ok_iff {f : α → Except ε PUnit} {as : List α} :
    forM as f = .ok () ↔ ∀ a ∈ as, f a = .ok () := by
  induction as with
  | nil => simp
  | cons a as ih =>
    rw [List.forM_cons, bind_eq_ok, List.forall_mem_cons, ← ih]
    exact ⟨fun ⟨⟨⟩, hfirst, hrest⟩ => ⟨hfirst, hrest⟩, fun ⟨hfirst, hrest⟩ => ⟨(), hfirst, hrest⟩⟩

/-- Steps along a list fail with the first of them that does. -/
theorem forM_eq_error_iff {f : α → Except ε PUnit} {as : List α} {e : ε} :
    forM as f = .error e ↔
      ∃ before a rest, as = before ++ a :: rest ∧ f a = .error e ∧ ∀ b ∈ before, f b = .ok () := by
  induction as with
  | nil => simp
  | cons a as ih =>
    rw [List.forM_cons, bind_eq_error]
    constructor
    · rintro (hfirst | ⟨⟨⟩, hfirst, hrest⟩)
      · exact ⟨[], a, as, rfl, hfirst, by simp⟩
      · obtain ⟨before, b, rest, rfl, hb, hbefore⟩ := ih.mp hrest
        exact ⟨a :: before, b, rest, rfl, hb, List.forall_mem_cons.mpr ⟨hfirst, hbefore⟩⟩
    · rintro ⟨_ | ⟨first, before⟩, b, rest, hsplit, hb, hbefore⟩
      · obtain ⟨rfl, rfl⟩ := List.cons.inj hsplit
        exact .inl hb
      · obtain ⟨rfl, rfl⟩ := List.cons.inj hsplit
        obtain ⟨hfirst, hbefore⟩ := List.forall_mem_cons.mp hbefore
        exact .inr ⟨(), hfirst, ih.mpr ⟨before, b, rest, rfl, hb, hbefore⟩⟩

/-- Steps along a list that fail in one way only fail in that way when one of them does. -/
theorem forM_eq_error_of_mem {f : α → Except ε PUnit} {as : List α} {e : ε}
    (alike : ∀ a ∈ as, f a = .ok () ∨ f a = .error e) {a : α} (ha : a ∈ as)
    (fails : f a = .error e) : forM as f = .error e := by
  induction as with
  | nil => cases ha
  | cons b as ih =>
    obtain ⟨hb, has⟩ := List.forall_mem_cons.mp alike
    rw [List.forM_cons]
    rcases hb with hb | hb
    · rcases List.mem_cons.mp ha with rfl | ha
      · rw [hb] at fails
        cases fails
      · rw [hb, ok_bind, ih has ha]
    · rw [hb, error_bind]

/-- A step that gives the item at each position, along the positions from `start` on, gives the
items from there on. -/
theorem mapM_range'_eq_ok {f : Nat → Except ε β} {items : List β} {start count : Nat}
    (inside : start + count ≤ items.length)
    (h : ∀ (i : Nat) (hi : i < items.length), f i = .ok items[i]) :
    (List.range' start count).mapM f = .ok ((items.drop start).take count) := by
  rw [mapM_eq_ok_iff, List.forall₂_iff_get]
  refine ⟨by simp; omega, ?_⟩
  intro i hi _
  have hi : i < count := by simpa using hi
  simpa using h (start + i) (by omega)

/-- A step that gives the item at each position, along all positions, gives all items. -/
theorem mapM_range_eq_ok {f : Nat → Except ε β} {items : List β}
    (h : ∀ (i : Nat) (hi : i < items.length), f i = .ok items[i]) :
    (List.range items.length).mapM f = .ok items := by
  rw [List.range_eq_range', mapM_range'_eq_ok (by omega) h]
  simp

/-! ## Outcomes of traced computations -/

@[simp] theorem outcome_pure (a : α) : (pure a : Traced ε α).outcome = .ok a := rfl

@[simp] theorem outcome_ofExcept (x : Except ε α) : (Traced.ofExcept x).outcome = x := rfl

@[simp] theorem outcome_emit (event : Event) :
    (Traced.emit event : Traced ε Unit).outcome = .ok () := rfl

/-- The outcome of two steps depends on their outcomes alone. -/
@[simp] theorem outcome_bind (x : Traced ε α) (f : α → Traced ε β) :
    (x >>= f).outcome = (x.outcome >>= fun a => (f a).outcome) := by
  show (Traced.bind x f).outcome = _
  rw [Traced.bind]
  cases x.outcome with
  | ok a => rfl
  | error e => rfl

@[simp] theorem outcome_map (f : α → β) (x : Traced ε α) :
    (f <$> x).outcome = f <$> x.outcome := by
  show (x >>= fun a => pure (f a)).outcome = _
  rw [outcome_bind]
  rfl

/-! ## Events of traced computations -/

@[simp] theorem events_pure (a : α) : (pure a : Traced ε α).events = [] := rfl

/-- What follows a value is reported behind what was reported before it. -/
theorem mk_ok_bind (a : α) (events : List Event) (f : α → Traced ε β) :
    ((⟨.ok a, events⟩ : Traced ε α) >>= f) = ⟨(f a).outcome, events ++ (f a).events⟩ := rfl

instance : LawfulMonad (Traced ε) := by
  refine LawfulMonad.mk' _ ?id_map (fun a f => ?pure_bind) ?bind_assoc
  case id_map =>
    rintro α ⟨e | a, events⟩
    · rfl
    · show (⟨.ok a, events ++ []⟩ : Traced ε α) = _
      rw [List.append_nil]
  case pure_bind => rfl
  case bind_assoc =>
    rintro α β γ ⟨e | a, events⟩ f g
    · rfl
    · rw [mk_ok_bind, mk_ok_bind]
      rcases f a with ⟨e | b, more⟩
      · rfl
      · rw [mk_ok_bind, mk_ok_bind, List.append_assoc]

end PosDictionary.Outcome
