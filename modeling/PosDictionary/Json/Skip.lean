import PosDictionary.Json.Number
import PosDictionary.Json.Text

/-!
# Values that are passed over

A value that nobody asked for is read only as far as it is needed to find its end. The lists and
objects around the current place are kept on a stack, innermost first, so a value may be nested as
deeply as its text is long.
-/

namespace PosDictionary.Json

namespace Skip

/-- Something that holds values. -/
inductive Container where
  | list
  | object
deriving DecidableEq

/-- The character that ends a container. -/
def Container.close : Container → Char
  | .list => ']'
  | .object => '}'

/-- What is to be passed over next. -/
inductive Place where
  /-- A value. -/
  | value
  /-- What comes behind the opening of a container, if `first`, or else behind a value in it. -/
  | inside (first : Bool)

/-- Of two places at the same character, the one with the lesser weight comes later. -/
def Place.weight : Place → Nat
  | .value => 0
  | .inside _ => 1

/-- Passes over a word, a number or a string, or over the opening of a container, which is given. -/
def opening (s : Rest) : Except ReadError (Option Container × Rest) :=
  match s with
  | [] => .error .cutShort
  | 'n' :: rest => (none, ·) <$> readWord ['u', 'l', 'l'] rest
  | 't' :: rest => (none, ·) <$> readWord ['r', 'u', 'e'] rest
  | 'f' :: rest => (none, ·) <$> readWord ['a', 'l', 's', 'e'] rest
  | '"' :: rest => (none, ·) <$> Text.skip rest
  | '[' :: rest => .ok (some .list, rest)
  | '{' :: rest => .ok (some .object, rest)
  | c :: rest =>
    if Number.startsHere c then (none, ·) <$> Number.skip (c :: rest) else .error .malformed

/-- Passes over what stands before the next value of a container: nothing in a list, and the key
in an object. -/
def enter (container : Container) (s : Rest) : Except ReadError Rest :=
  match container with
  | .list => .ok s
  | .object =>
    match dropBlanks s with
    | [] => .error .cutShort
    | c :: rest => if c = '"' then Text.skip rest >>= readColon else .error .malformed

/-- What opens a value takes characters. -/
theorem length_opening {s rest : Rest} {container : Option Container}
    (h : opening s = .ok (container, rest)) : rest.length < s.length := by
  have mapped : ∀ {x : Except ReadError Rest}, (none, ·) <$> x = .ok (container, rest) →
      x = .ok rest := by
    intro x hx
    cases x with
    | error e => simp [Functor.map, Except.map] at hx
    | ok r =>
      simp only [Functor.map, Except.map, Except.ok.injEq, Prod.mk.injEq] at hx
      exact congrArg _ hx.2
  unfold opening at h
  split at h
  · simp at h
  · have := length_readWord (mapped h)
    simp only [List.length_cons, List.length_nil] at this ⊢
    omega
  · have := length_readWord (mapped h)
    simp only [List.length_cons, List.length_nil] at this ⊢
    omega
  · have := length_readWord (mapped h)
    simp only [List.length_cons, List.length_nil] at this ⊢
    omega
  · have := Text.length_skip (mapped h)
    simp only [List.length_cons]
    omega
  · simp only [Except.ok.injEq, Prod.mk.injEq] at h
    obtain ⟨-, rfl⟩ := h
    simp
  · simp only [Except.ok.injEq, Prod.mk.injEq] at h
    obtain ⟨-, rfl⟩ := h
    simp
  · split at h
    · exact Number.length_skip (mapped h)
    · simp at h

/-- What is left behind the entry of a value is not longer. -/
theorem length_enter {container : Container} {s rest : Rest} (h : enter container s = .ok rest) :
    rest.length ≤ s.length := by
  unfold enter at h
  split at h
  · simp only [Except.ok.injEq] at h
    subst h
    exact Nat.le_refl _
  · split at h
    · simp at h
    · next hs =>
      have := length_of_dropBlanks hs
      split at h
      · next tail _ =>
        cases ht : Text.skip tail with
        | error e => simp [ht, bind, Except.bind] at h
        | ok after =>
          have := Text.length_skip ht
          simp only [ht, bind, Except.bind] at h
          have := length_readColon h
          omega
      · simp at h

/-- Passes over the rest of the containers `stack`, beginning at `place`. -/
def run (place : Place) (stack : List Container) (s : Rest) : Except ReadError Rest :=
  match place, stack with
  | .value, stack =>
    match _h : opening (dropBlanks s) with
    | .error e => .error e
    | .ok (none, rest) => run (.inside false) stack rest
    | .ok (some container, rest) => run (.inside true) (container :: stack) rest
  | .inside _, [] => .ok s
  | .inside first, container :: outer =>
    match _h : dropBlanks s with
    | [] => .error .cutShort
    | c :: rest =>
      if c = ',' ∧ ¬ first then
        match _h' : enter container rest with
        | .error e => .error e
        | .ok rest => run .value (container :: outer) rest
      else if c = container.close then
        run (.inside false) outer rest
      else if first then
        match _h' : enter container (c :: rest) with
        | .error e => .error e
        | .ok rest => run .value (container :: outer) rest
      else
        .error .malformed
termination_by (s.length, place.weight)
decreasing_by
  · have := length_dropBlanks_le s
    have := length_opening _h
    exact Prod.Lex.left _ _ (by omega)
  · have := length_dropBlanks_le s
    have := length_opening _h
    exact Prod.Lex.left _ _ (by omega)
  · have := length_of_dropBlanks _h
    have := length_enter _h'
    exact Prod.Lex.left _ _ (by omega)
  · have := length_of_dropBlanks _h
    exact Prod.Lex.left _ _ (by omega)
  · have := length_dropBlanks_le s
    have := length_enter _h'
    rw [_h] at *
    simp only [Prod.lex_def, Place.weight]
    omega

/-- What is left behind the containers is not longer. -/
theorem length_run {place : Place} {stack : List Container} {s rest : Rest}
    (h : run place stack s = .ok rest) : rest.length ≤ s.length := by
  fun_induction run place stack s with
  | case1 => simp at h
  | case2 s stack rest' hs ih =>
    have := ih h
    have := length_dropBlanks_le s
    have := length_opening hs
    omega
  | case3 s stack container rest' hs ih =>
    have := ih h
    have := length_dropBlanks_le s
    have := length_opening hs
    omega
  | case4 =>
    simp only [Except.ok.injEq] at h
    subst h
    exact Nat.le_refl _
  | case5 => simp at h
  | case6 => simp at h
  | case7 s first container outer c tail hs _ after hr ih =>
    have := ih h
    have := length_of_dropBlanks hs
    have := length_enter hr
    omega
  | case8 s first container outer tail hs _ ih =>
    have := ih h
    have := length_of_dropBlanks hs
    omega
  | case9 => simp at h
  | case10 s container outer c tail hs _ after hr _ ih =>
    have := ih h
    have := length_dropBlanks_le s
    have := length_enter hr
    rw [hs] at *
    omega
  | case11 => simp at h

end Skip

/-- Passes over a value. -/
def skipValue (s : Rest) : Except ReadError Rest :=
  Skip.run .value [] s

/-- What is left behind a value is not longer. -/
theorem length_skipValue {s rest : Rest} (h : skipValue s = .ok rest) : rest.length ≤ s.length :=
  Skip.length_run h

end PosDictionary.Json
