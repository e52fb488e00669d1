import PosDictionary.Json.Primitive
import PosDictionary.Json.Skip

/-!
# Records

A record may be written as an object, with its fields in any order and other fields passed over,
or as a list of its fields in the order in which they are declared. A `Schema` says which fields a
record has and how it is made of them.
-/

namespace PosDictionary.Json

/-- A field of a record, of which `σ` are the parts read so far. -/
structure Field (σ : Type) where
  /-- The name of the field. -/
  name : String
  /-- The field has been read. -/
  isRead : σ → Bool
  /-- Reads the field. -/
  reader : σ → Reader σ

/-- The shape of a record `α`, of which `σ` are the parts read so far. -/
structure Schema (σ α : Type) where
  /-- What is said to be expected where there is no such record. -/
  title : String
  /-- The fields in the order in which they are declared. -/
  fields : List (Field σ)
  /-- No parts. -/
  start : σ
  /-- The record with these parts, or the name of the first field that is missing. -/
  build : σ → Except String α

namespace Schema

variable {σ α : Type}

/-! ## Objects -/

/-- Reads the quote in front of a key. -/
def keyStart (s : Rest) : Except ReadError (Option Rest) :=
  match s with
  | [] => .error .cutShort
  | c :: rest => if c = '"' then .ok (some rest) else .error .malformed

/-- Looks for the next key of an object: the place behind its first quote, or none if the object
ends here. A comma stands before every key but the `first`. -/
def nextKey (first : Bool) (s : Rest) : Except ReadError (Option Rest) :=
  match dropBlanks s with
  | [] => .error .cutShort
  | c :: rest =>
    if c = '}' then .ok none
    else if first then keyStart (c :: rest)
    else if c = ',' then keyStart (dropBlanks rest)
    else .error .malformed

/-- Reads the value of the field `name` behind its key. A field that was read before is refused at
once, and a value that belongs to no field is passed over. -/
def readMember (schema : Schema σ α) (name : String) (parts : σ) (s : Rest) :
    Except ReadError (σ × Rest) :=
  match schema.fields.find? fun field => field.name == name with
  | none => (parts, ·) <$> (readColon s >>= skipValue)
  | some field =>
    if field.isRead parts then .error (.mismatch (.duplicateField name))
    else readColon s >>= (field.reader parts).read

theorem length_keyStart {s place : Rest} (h : keyStart s = .ok (some place)) :
    place.length < s.length := by
  unfold keyStart at h
  split at h
  · simp at h
  · split at h
    · simp only [Except.ok.injEq, Option.some.injEq] at h
      subst h
      simp
    · simp at h

/-- A key begins behind its quote. -/
theorem length_nextKey {first : Bool} {s place : Rest} (h : nextKey first s = .ok (some place)) :
    place.length < s.length := by
  unfold nextKey at h
  have hle := length_dropBlanks_le s
  split at h
  · simp at h
  · next c rest hs =>
    rw [hs] at hle
    split at h
    · simp at h
    · split at h
      · have := length_keyStart h
        omega
      · split at h
        · have := length_keyStart h
          have := length_dropBlanks_le rest
          simp only [List.length_cons] at hle
          omega
        · simp at h

/-- A member takes characters, known or not. -/
theorem length_readMember {schema : Schema σ α} {name : String} {parts parts' : σ} {s rest : Rest}
    (h : schema.readMember name parts s = .ok (parts', rest)) : rest.length < s.length := by
  unfold readMember at h
  split at h
  · cases hc : readColon s with
    | error e => simp [hc, bind, Except.bind, Functor.map, Except.map] at h
    | ok after =>
      cases hv : skipValue after with
      | error e => simp [hc, hv, bind, Except.bind, Functor.map, Except.map] at h
      | ok after' =>
        simp only [hc, hv, bind, Except.bind, Functor.map, Except.map, Except.ok.injEq,
          Prod.mk.injEq] at h
        obtain ⟨-, rfl⟩ := h
        have := length_readColon hc
        have := length_skipValue hv
        omega
  · next field _ =>
    split at h
    · simp at h
    · cases hc : readColon s with
      | error e => simp [hc, bind, Except.bind] at h
      | ok after =>
        simp only [hc, bind, Except.bind] at h
        have := length_readColon hc
        have := (field.reader parts).progress h
        omega

/-- Reads the members of an object behind its brace, or behind its first members, and the end of
the object. -/
def readMembers (schema : Schema σ α) (first : Bool) (parts : σ) (s : Rest) :
    Except ReadError (α × Rest) :=
  match _h : nextKey first s with
  | .error e => .error e
  | .ok none =>
    match schema.build parts with
    | .error name => .error (.mismatch (.missingField name))
    | .ok a => (a, ·) <$> readClose '}' s
  | .ok (some place) =>
    match _hk : Text.read place with
    | .error e => .error e
    | .ok (name, rest) =>
      match _hm : schema.readMember name parts rest with
      | .error e => .error e
      | .ok (parts, rest) => readMembers schema false parts rest
termination_by s.length
decreasing_by
  have := length_nextKey _h
  have := Text.length_read _hk
  have := length_readMember _hm
  omega

/-- The members take characters, the closing brace at least. -/
theorem length_readMembers {schema : Schema σ α} {first : Bool} {parts : σ} {s rest : Rest} {a : α}
    (h : schema.readMembers first parts s = .ok (a, rest)) : rest.length < s.length := by
  fun_induction readMembers schema first parts s with
  | case1 => simp at h
  | case2 => simp at h
  | case3 first parts s hn b hb =>
    cases hc : readClose '}' s with
    | error e => simp [hc, Functor.map, Except.map] at h
    | ok after =>
      simp only [hc, Functor.map, Except.map, Except.ok.injEq, Prod.mk.injEq] at h
      obtain ⟨-, rfl⟩ := h
      exact length_readClose hc
  | case4 => simp at h
  | case5 => simp at h
  | case6 first parts s place hn name after hk parts' after' hm ih =>
    have := ih h
    have := length_nextKey hn
    have := Text.length_read hk
    have := length_readMember hm
    omega

/-! ## Lists -/

/-- Reads fields from the items of a list, until the list or the fields end. -/
def readElements (first : Bool) (parts : σ) (s : Rest) :
    List (Field σ) → Except ReadError (σ × Rest)
  | [] => .ok (parts, s)
  | field :: fields =>
    match nextItem first s with
    | .error e => .error e
    | .ok none => .ok (parts, s)
    | .ok (some place) =>
      match (field.reader parts).read place with
      | .error e => .error e
      | .ok (parts, rest) => readElements false parts rest fields

/-- The error for a list that ends before the field `name`. -/
def wrongLength (schema : Schema σ α) (name : String) : ReadError :=
  let length := schema.fields.findIdx fun field => field.name == name
  let expected := s!"{schema.title} with {schema.fields.length} elements"
  .mismatch (.wrongLength length expected)

/-- Reads a record from the items of a list. -/
def readSequence (schema : Schema σ α) (s : Rest) : Except ReadError (α × Rest) :=
  match readElements true schema.start s schema.fields with
  | .error e => .error e
  | .ok (parts, rest) =>
    match schema.build parts with
    | .error name => .error (schema.wrongLength name)
    | .ok a => (a, ·) <$> readClose ']' rest

/-- What is left behind the elements, if there are any, is not longer. -/
theorem length_readElements {first : Bool} {parts parts' : σ} {s rest : Rest}
    {fields : List (Field σ)} (h : readElements first parts s fields = .ok (parts', rest)) :
    rest.length ≤ s.length := by
  fun_induction readElements first parts s fields with
  | case1 =>
    simp only [Except.ok.injEq, Prod.mk.injEq] at h
    obtain ⟨-, rfl⟩ := h
    exact Nat.le_refl _
  | case2 => simp at h
  | case3 =>
    simp only [Except.ok.injEq, Prod.mk.injEq] at h
    obtain ⟨-, rfl⟩ := h
    exact Nat.le_refl _
  | case4 => simp at h
  | case5 first parts s field fields place hn parts' after hr ih =>
    have := ih h
    have := length_nextItem hn
    have := (field.reader parts).progress hr
    omega

/-- A list of fields takes characters, the closing bracket at least. -/
theorem length_readSequence {schema : Schema σ α} {s rest : Rest} {a : α}
    (h : schema.readSequence s = .ok (a, rest)) : rest.length < s.length := by
  unfold readSequence at h
  split at h
  · simp at h
  · next after he =>
    split at h
    · simp at h
    · cases hc : readClose ']' after with
      | error e => simp [hc, Functor.map, Except.map] at h
      | ok after' =>
        simp only [hc, Functor.map, Except.map, Except.ok.injEq, Prod.mk.injEq] at h
        obtain ⟨-, rfl⟩ := h
        have := length_readElements he
        have := length_readClose hc
        omega

/-! ## Records -/

/-- Reads a record. -/
def reader (schema : Schema σ α) : Reader α where
  read s :=
    match dropBlanks s with
    | '{' :: rest => schema.readMembers true schema.start rest
    | '[' :: rest => schema.readSequence rest
    | other => .error (wrongType schema.title other)
  progress := by
    intro s a rest h
    split at h
    · next hs =>
      have := length_of_dropBlanks hs
      have := length_readMembers h
      omega
    · next hs =>
      have := length_of_dropBlanks hs
      have := length_readSequence h
      omega
    · simp at h

end Schema

end PosDictionary.Json
