import PosDictionary.Json.Streamed
import PosDictionary.Proofs.Json.Records
import PosDictionary.Proofs.Json.Shapes
import PosDictionary.Proofs.Json.ValueTexts

/-!
# Reading from left to right

Reading from left to right is one way to do what is documented, `documented_streamed`: wherever a
value is found that stands for data, the reader of the shape finds this data, `Shape.follows`. For a
record that is the schema made of its fields, whose parts are those that the names seen so far
give, `Fields.seenOf`: each member is read by its field, `Fields.follows_member`, and once all
members are seen the record is complete, `Fields.build_seenOf`.
-/

namespace PosDictionary.Json

open Outcome

/-! ## Fields -/

namespace Fields

/-- What has been read of the fields after members with these names. -/
def seenOf {names : List String} {β : Type} : (fields : Fields names β) → β → List String →
    fields.Seen
  | .nil, _, _ => ()
  | .cons name _ _ _ rest, (a, b), seen =>
    (if name ∈ seen then some a else none, rest.seenOf b seen)

/-- Before any member, nothing has been read. -/
theorem seenOf_nil {names : List String} {β : Type} :
    (fields : Fields names β) → (b : β) → fields.seenOf b [] = fields.noneSeen
  | .nil, _ => rfl
  | .cons _ _ _ _ rest, (_, b) => congrArg (none, ·) (rest.seenOf_nil b)

/-- A name that is not declared does not matter. -/
theorem seenOf_cons_of_notMem {names : List String} {β : Type} :
    (fields : Fields names β) → (b : β) → {name : String} → name ∉ names → (seen : List String) →
      fields.seenOf b (name :: seen) = fields.seenOf b seen
  | .nil, _, _, _, _ => rfl
  | .cons first _ _ _ rest, (_, b), name, hname, seen => by
    have hne : first ≠ name := fun h => hname (h ▸ List.mem_cons_self)
    have hrest := rest.seenOf_cons_of_notMem b (fun h => hname (List.mem_cons_of_mem _ h)) seen
    exact Prod.ext (if_congr (by simp [hne]) rfl rfl) hrest

/-- Once all members are seen, the fields are what the members mean. -/
theorem build_seenOf {names : List String} {β : Type} : (fields : Fields names β) → {b : β} →
    {members : List (String × Value)} → {seen : List String} → fields.AllStated members b →
      members.map Prod.fst ⊆ seen → fields.build (fields.seenOf b seen) = .ok b
  | .nil, _, _, _, _, _ => rfl
  | .cons name _ default _ rest, (a, b), members, seen, h, hseen => by
    have hpart : ((if name ∈ seen then some a else none) <|> default) = some a := by
      split
      next => rfl
      next habsent =>
        rcases h.1 with ⟨v, hmem, -⟩ | ⟨-, rfl⟩
        · exact absurd (hseen (List.mem_map_of_mem hmem)) habsent
        · rfl
    simp only [build, seenOf, hpart, rest.build_seenOf h.2 hseen]
    rfl

end Fields

/-- A field is found by its name also when there is another one in front. -/
theorem find?_map_behind {σ : Type} (τ : Type) {fields : List (Field σ)} {field : Field σ}
    {name : String} (h : fields.find? (fun field => field.name == name) = some field) :
    (fields.map (Field.behind τ)).find? (fun field => field.name == name) =
      some (field.behind τ) := by
  rw [List.find?_map]
  exact congrArg (Option.map _) h

/-! ## Values -/

section Values

variable {α β : Type} {depth : Nat} {s rest : Rest}

/-- What is changed was read before. -/
theorem exists_of_read_map {reader : Reader α} {f : α → β} {b : β}
    (h : (reader.map f).read s = .ok (b, rest)) : ∃ a, b = f a ∧ reader.read s = .ok (a, rest) := by
  simp only [Reader.map] at h
  split at h
  next a rest' hread =>
    cases h
    exact ⟨a, rfl, hread⟩
  next => cases h

/-- What a value is read as, by its kind. -/
theorem exists_of_read_value {v : Value} (h : (valueReader depth).read s = .ok (v, rest)) :
    (∃ text, v = .string text ∧ stringReader.read s = .ok (text, rest)) ∨
    (∃ n, v = .number n ∧ uint64Reader.read s = .ok (n, rest)) ∨
    (∃ inner items, v = .list items ∧
      (listReader (valueReader inner)).read s = .ok (items, rest)) ∨
    ∃ inner members, v = .object members ∧
      (objectReader (valueReader inner)).read s = .ok (members, rest) := by
  have hscalar : (scalarReader (dropBlanks s).head?).read s = .ok (v, rest) →
      (∃ text, v = .string text ∧ stringReader.read s = .ok (text, rest)) ∨
      ∃ n, v = .number n ∧ uint64Reader.read s = .ok (n, rest) := by
    intro h
    unfold scalarReader at h
    split at h
    next => exact .inl (exists_of_read_map h)
    next => exact .inr (exists_of_read_map h)
  cases depth with
  | zero =>
    rcases hscalar h with hstring | hnumber
    · exact .inl hstring
    · exact .inr (.inl hnumber)
  | succ depth =>
    simp only [valueReader, Reader.byHead] at h
    split at h
    next => exact .inr (.inr (.inl ⟨depth, exists_of_read_map h⟩))
    next =>
      split at h
      next => exact .inr (.inr (.inr ⟨depth, exists_of_read_map h⟩))
      next =>
        rcases hscalar h with hstring | hnumber
        · exact .inl hstring
        · exact .inr (.inl hnumber)

/-- Where a value is a string, this is read. -/
theorem follows_string (depth : Nat) (text : String) :
    Follows (valueReader depth) (.string text) stringReader text := by
  intro s rest h
  rcases exists_of_read_value h with ⟨_, heq, hread⟩ | ⟨_, heq, -⟩ | ⟨_, _, heq, -⟩ | ⟨_, _, heq, -⟩
  all_goals cases heq
  exact hread

/-- Where a value is a number of 16 bits, this is read. -/
theorem follows_uint16 (depth : Nat) (n : UInt16) :
    Follows (valueReader depth) (.number n.toUInt64) uint16Reader n := by
  intro s rest h
  rcases exists_of_read_value h with ⟨_, heq, -⟩ | ⟨_, heq, hread⟩ | ⟨_, _, heq, -⟩ | ⟨_, _, heq, -⟩
  all_goals cases heq
  obtain ⟨k, heq, hk⟩ := exists_of_read_map hread
  obtain ⟨hstarts, hnumber, hlt⟩ := read_natural_iff.mp hk
  have hvalue : n.toNat = k := by
    have hnat := congrArg UInt64.toNat heq
    rwa [UInt16.toNat_toUInt64, UInt64.toNat_ofNat_of_lt' hlt] at hnat
  have hread16 : (naturalReader UInt16.size "u16").read s = .ok (k, rest) :=
    read_natural_iff.mpr ⟨hstarts, hnumber, hvalue ▸ n.toNat_lt⟩
  simp only [uint16Reader, Reader.map]
  rw [hread16]
  simp only [← hvalue, UInt16.ofNat_toNat]

/-- Where a value is a list, what follows its items is read. -/
theorem follows_list {items : List Value} {other : Reader β} {b : β}
    (h : ∀ inner, Follows (listReader (valueReader inner)) items other b) (depth : Nat) :
    Follows (valueReader depth) (.list items) other b := by
  intro s rest hread
  rcases exists_of_read_value hread with
    ⟨_, heq, -⟩ | ⟨_, heq, -⟩ | ⟨inner, _, heq, hlist⟩ | ⟨_, _, heq, -⟩
  all_goals cases heq
  exact h inner s rest hlist

/-- Where a value is an object, what follows its members is read. -/
theorem follows_object {members : List (String × Value)} {other : Reader β} {b : β}
    (h : ∀ inner, Follows (objectReader (valueReader inner)) members other b) (depth : Nat) :
    Follows (valueReader depth) (.object members) other b := by
  intro s rest hread
  rcases exists_of_read_value hread with
    ⟨_, heq, -⟩ | ⟨_, heq, -⟩ | ⟨_, _, heq, -⟩ | ⟨inner, _, heq, hobject⟩
  all_goals cases heq
  exact h inner s rest hobject

end Values

/-! ## Shapes -/

mutual

/-- Wherever a value is found that stands for data, this data is read. -/
theorem Shape.follows {α : Type} : (shape : Shape α) → {v : Value} → {a : α} → shape.Means v a →
    (depth : Nat) → Follows (valueReader depth) v shape.reader a
  | .string, _, text, h, depth => h ▸ follows_string depth text
  | .uint16, _, n, h, depth => h ▸ follows_uint16 depth n
  | .list item, _, items, h, depth => by
    obtain ⟨values, rfl, hitems⟩ := h
    refine follows_list (fun inner => ?_) depth
    exact .parts (hitems.imp fun _ _ hmeans => item.follows hmeans inner)
  | .record _ fields make _ _, _, _, h, depth => by
    obtain ⟨members, b, rfl, nodup, hsub, hstated, rfl⟩ := h
    refine follows_object (fun inner => ?_) depth
    refine Schema.Takes.follows ⟨fields.seenOf_nil b, nodup, fun m hm => ?_⟩ fun seen hseen => ?_
    · exact fields.follows_member hstated nodup inner m hm (hsub (List.mem_map_of_mem hm))
    · exact congrArg (Functor.map make) (fields.build_seenOf hstated hseen)

/-- A member that has not been seen is read by the field with its name. -/
theorem Fields.follows_member {names : List String} {β : Type} :
    (fields : Fields names β) → {b : β} → {members : List (String × Value)} →
      fields.AllStated members b → (members.map Prod.fst).Nodup → (depth : Nat) →
      ∀ m ∈ members, m.1 ∈ names → ∀ seen, m.1 ∉ seen → ∃ field : Field fields.Seen,
        fields.entries.find? (fun field => field.name == m.1) = some field ∧
          field.isRead (fields.seenOf b seen) = false ∧
          Follows (valueReader depth) m.2 (field.reader (fields.seenOf b seen))
            (fields.seenOf b (m.1 :: seen))
  | .nil, _, _, _, _, _, _, _, hname, _, _ => absurd hname List.not_mem_nil
  | .cons first isNew _ shape rest, (_, b), _, h, nodup, depth, (name, v), hm, hname, seen,
      hnew => by
    by_cases heq : first = name
    · -- The name is that of one member only, so this is the one that states the first field.
      subst heq
      have hmeans := h.1.means_of_mem nodup hm
      have hrest := rest.seenOf_cons_of_notMem b isNew seen
      refine ⟨_, List.find?_cons_of_pos (beq_self_eq_true first), ?_,
        (shape.follows hmeans depth).map ?_⟩
      · exact congrArg Option.isSome (if_neg hnew)
      · exact Prod.ext (if_pos List.mem_cons_self).symm hrest.symm
    · have hbehind := (List.mem_cons.mp hname).resolve_left (Ne.symm heq)
      obtain ⟨field, hfind, hread, hfollows⟩ :=
        rest.follows_member h.2 nodup depth _ hm hbehind seen hnew
      refine ⟨field.behind _, ?_, hread, hfollows.map ?_⟩
      · exact (List.find?_cons_of_neg (by simpa using heq)).trans (find?_map_behind _ hfind)
      · exact Prod.ext (if_congr (by simp [heq]) rfl rfl) rfl

end

/-! ## The library -/

/-- What one reader finds in a whole text, another one that follows it finds as well. -/
theorem Follows.readAll {α β : Type} {reader : Reader α} {other : Reader β} {a : α} {b : β}
    (h : Follows reader a other b) {text : String} (hread : reader.readAll text = .ok a) :
    other.readAll text = .ok b := by
  unfold Reader.readAll at hread ⊢
  split at hread
  next => cases hread
  next a' rest ha =>
    split at hread
    next hblank =>
      cases hread
      rw [h _ rest ha]
      exact if_pos hblank
    next => cases hread

/-- The library that reads from left to right does what is documented. -/
theorem documented_streamed : streamed.Documented where
  parse_print h := (reads_value h).readAll_eq
  write_eq _ _ := rfl
  read_eq hparse hmeans := (Shape.follows _ hmeans nestingLimit).readAll hparse

end PosDictionary.Json
