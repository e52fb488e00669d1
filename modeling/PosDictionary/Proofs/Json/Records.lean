import PosDictionary.Proofs.Json.Enclosures

/-!
# Records instead of objects

One reader finds a value in a text, and another one finds what the value stands for in the same
place, `Follows`. For lists that is so if it is for their items, `Follows.parts`. A schema reads the
members of an object in whatever order they come: what has been read depends only on the names that
have been seen, so a schema is described by the parts that belong to every list of names, and by
what one more member does to them, `Schema.Takes`. From that, a record is read wherever the other
reader finds its members, `Schema.Takes.follows`.
-/

namespace PosDictionary.Json

open Outcome

/-- Wherever the one reader finds `a`, the other one finds `b`, and both leave the same. -/
def Follows {α β : Type} (reader : Reader α) (a : α) (other : Reader β) (b : β) : Prop :=
  ∀ s rest, reader.read s = .ok (a, rest) → other.read s = .ok (b, rest)

/-- What is made of the value that is found is found as well. -/
theorem Follows.map {α β γ : Type} {reader : Reader α} {other : Reader β} {a : α} {b : β}
    (h : Follows reader a other b) {f : β → γ} {c : γ} (hc : f b = c) :
    Follows reader a (other.map f) c := by
  intro s rest hread
  simp only [Reader.map]
  rw [h s rest hread, ← hc]

/-! ## Parts between marks -/

namespace Enclosure

variable {α β : Type} {e : Enclosure} {part : Reader α} {other : Reader β} {seen : Array α}
  {seen' : Array β} {as : List α} {bs : List β} {s rest : Rest}

/-- The parts that are read begin with those seen before. -/
theorem exists_of_readParts (h : e.readParts part seen s = .ok (as, rest)) :
    ∃ more, as = seen.toList ++ more := by
  fun_induction readParts e part seen s with
  | case1 => cases h
  | case2 seen s =>
    obtain ⟨_, -, heq⟩ := map_eq_ok.mp h
    cases heq
    exact ⟨[], (List.append_nil _).symm⟩
  | case3 => cases h
  | case4 seen s place _ a rest' _ ih =>
    obtain ⟨more, rfl⟩ := ih h
    exact ⟨a :: more, by simp⟩

/-- Behind as many parts, further ones are found where the one reader finds those that they
follow. -/
theorem readParts_of_follows (hsize : seen.size = seen'.size)
    (hparts : List.Forall₂ (fun a b => Follows part a other b) as bs)
    (h : e.readParts part seen s = .ok (seen.toList ++ as, rest)) :
    e.readParts other seen' s = .ok (seen'.toList ++ bs, rest) := by
  have hempty : seen'.isEmpty = seen.isEmpty := by simp [Array.isEmpty, hsize]
  fun_induction readParts e part seen s generalizing seen' as bs with
  | case1 => cases h
  | case2 seen s hnext =>
    obtain ⟨rest', hclose, heq⟩ := map_eq_ok.mp h
    obtain ⟨hnil, rfl⟩ := Prod.mk.inj heq
    obtain rfl : as = [] := by simpa using hnil
    cases hparts
    rw [List.append_nil]
    exact readParts_of_close (hempty ▸ hnext) hclose
  | case3 => cases h
  | case4 seen s place hnext a rest' ha ih =>
    obtain ⟨more, hmore⟩ := exists_of_readParts h
    obtain rfl : as = a :: more := by simpa using hmore
    obtain ⟨b, bs, hb, hbs, rfl⟩ := List.forall₂_cons_left_iff.mp hparts
    rw [readParts_of_part (hempty ▸ hnext) (hb place rest' ha)]
    have hpush : e.readParts other (seen'.push b) rest' =
        .ok ((seen'.push b).toList ++ bs, rest) :=
      ih (by simp [hsize]) hbs (by simpa using h) (by simp)
    simpa using hpush

/-- Parts that are read stand behind the opening mark. -/
theorem read_eq_ok (h : (e.reader part).read s = .ok (as, rest)) :
    ∃ inner, dropBlanks s = e.opening :: inner ∧ e.readParts part #[] inner = .ok (as, rest) := by
  simp only [reader] at h
  split at h
  next => cases h
  next c inner hs =>
    split at h
    next hopening => exact ⟨inner, hopening ▸ hs, h⟩
    next => cases h

end Enclosure

/-- Parts between marks are found where the one reader finds those that they follow. -/
theorem Follows.parts {α β : Type} {e : Enclosure} {part : Reader α} {other : Reader β}
    {as : List α} {bs : List β} (h : List.Forall₂ (fun a b => Follows part a other b) as bs) :
    Follows (e.reader part) as (e.reader other) bs := by
  intro s rest hread
  obtain ⟨inner, hs, hparts⟩ := Enclosure.read_eq_ok hread
  have hsize : (#[] : Array α).size = (#[] : Array β).size := rfl
  simp only [Enclosure.reader, hs, if_true]
  exact Enclosure.readParts_of_follows hsize h hparts

/-! ## Objects -/

section Objects

variable {α : Type} {value : Reader α} {seen : Array (String × α)} {all : List (String × α)}
  {s place rest : Rest} {m : String × α}

/-- A member is read in three steps. -/
theorem read_member_eq_ok (h : (memberReader value).read place = .ok (m, rest)) :
    ∃ behind inner, Text.read place = .ok (m.1, behind) ∧ readColon behind = .ok inner ∧
      value.read inner = .ok (m.2, rest) := by
  simp only [memberReader] at h
  split at h
  · cases h
  next name behind hname =>
    split at h
    · cases h
    next inner hcolon =>
      split at h
      · cases h
      next hvalue =>
        cases h
        exact ⟨behind, inner, hname, hcolon, hvalue⟩

namespace Schema

variable {σ β : Type} {schema : Schema σ β} {parts parts' : σ} {first : Bool} {behind : Rest}
  {name : String} {b : β}

/-- Where no key follows, the record is built. -/
theorem readMembers_of_close (h : nextKey first s = .ok none) (hbuild : schema.build parts = .ok b)
    (hclose : readClose '}' s = .ok rest) :
    schema.readMembers first parts s = .ok (b, rest) := by
  rw [readMembers]
  split
  next h' => rw [h] at h'; cases h'
  next => rw [hbuild, hclose]; rfl
  next h' => rw [h] at h'; cases h'

/-- Where a key follows, its member is read, and then the others. -/
theorem readMembers_of_member (h : nextKey first s = .ok (some place))
    (hkey : Text.read place = .ok (name, behind))
    (hmember : schema.readMember name parts behind = .ok (parts', rest)) :
    schema.readMembers first parts s = schema.readMembers false parts' rest := by
  rw [readMembers]
  split
  next h' => rw [h] at h'; cases h'
  next h' => rw [h] at h'; cases h'
  next place' h' =>
    rw [h] at h'
    cases h'
    split
    next h'' => rw [hkey] at h''; cases h''
    next h'' =>
      rw [hkey] at h''
      cases h''
      split
      next hm => rw [hmember] at hm; cases hm
      next hm => rw [hmember] at hm; cases hm; rfl

/-- The schema takes the members `all`, each of them once, where another reader finds their values:
`partsOf` are the parts after members with certain names have been read. -/
structure Takes (schema : Schema σ β) (value : Reader α) (all : List (String × α))
    (partsOf : List String → σ) : Prop where
  /-- At first no member has been read. -/
  start_eq : partsOf [] = schema.start
  /-- The members have different names. -/
  nodup : (all.map Prod.fst).Nodup
  /-- A member that has not been seen is read by the field with its name. -/
  field : ∀ m ∈ all, ∀ names, m.1 ∉ names → ∃ field : Field σ,
    schema.fields.find? (fun field => field.name == m.1) = some field ∧
      field.isRead (partsOf names) = false ∧
      Follows value m.2 (field.reader (partsOf names)) (partsOf (m.1 :: names))

variable {partsOf : List String → σ} {names : List String}

/-- A member that has not been seen is read behind its name. -/
theorem Takes.readMember_eq (h : schema.Takes value all partsOf) (hm : m ∈ all) (hnew : m.1 ∉ names)
    {inner : Rest} (hcolon : readColon behind = .ok inner)
    (hvalue : value.read inner = .ok (m.2, rest)) :
    schema.readMember m.1 (partsOf names) behind = .ok (partsOf (m.1 :: names), rest) := by
  obtain ⟨field, hfind, hread, hfollows⟩ := h.field m hm names hnew
  unfold readMember
  simp only [hfind, hread, hcolon, ok_bind]
  exact hfollows inner rest hvalue

/-- Behind some members, the schema reads the others where they are found, and builds the record. -/
theorem Takes.readMembers_of_readParts (h : schema.Takes value all partsOf)
    (hbuild : ∀ names, all.map Prod.fst ⊆ names → schema.build (partsOf names) = .ok b)
    (hread : braces.readParts (memberReader value) seen s = .ok (all, rest)) :
    schema.readMembers seen.isEmpty (partsOf (seen.toList.map Prod.fst).reverse) s =
      .ok (b, rest) := by
  fun_induction Enclosure.readParts braces (memberReader value) seen s with
  | case1 => cases hread
  | case2 seen s hnext =>
    obtain ⟨rest', hclose, heq⟩ := map_eq_ok.mp hread
    cases heq
    exact readMembers_of_close hnext (hbuild _ fun _ => List.mem_reverse.mpr) hclose
  | case3 => cases hread
  | case4 seen s place hnext m rest' hm ih =>
    obtain ⟨more, hmore⟩ := Enclosure.exists_of_readParts hread
    obtain ⟨behind, inner, hname, hcolon, hvalue⟩ := read_member_eq_ok hm
    have hmem : m ∈ all := by simp [hmore]
    have hnew : m.1 ∉ (seen.toList.map Prod.fst).reverse := by
      have nodup := h.nodup
      rw [hmore, Array.toList_push, List.append_assoc, List.map_append] at nodup
      intro hseen
      exact (List.nodup_append.mp nodup).2.2 _ (List.mem_reverse.mp hseen) _ List.mem_cons_self rfl
    rw [readMembers_of_member hnext hname (h.readMember_eq hmem hnew hcolon hvalue)]
    simpa using ih hread

/-- **Objects are read in any order.** A record is read wherever the other reader finds members that
the schema takes, if it is built once all of them are seen. -/
theorem Takes.follows (h : schema.Takes value all partsOf)
    (hbuild : ∀ names, all.map Prod.fst ⊆ names → schema.build (partsOf names) = .ok b) :
    Follows (objectReader value) all schema.reader b := by
  intro s rest hread
  obtain ⟨inner, hs, hparts⟩ := Enclosure.read_eq_ok hread
  have hs : dropBlanks s = '{' :: inner := hs
  have hmembers := h.readMembers_of_readParts hbuild hparts
  simp only [reader, hs, ← h.start_eq]
  exact hmembers

end Schema

end Objects

end PosDictionary.Json
