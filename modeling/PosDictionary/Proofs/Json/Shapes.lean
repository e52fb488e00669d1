import Mathlib.Data.List.Forall2
import Mathlib.Data.List.Nodup
import PosDictionary.Json.Shape

/-!
# Values that stand for data

More than one value stands for the same data, `Shape.Means`: the members of an object may be listed
in any order, and a field may be left out if its default is what it would say. The value that is
made of the data is one of them, `means_valueOf`. What is relied upon of a library is that it
writes this value, and reads the text of every value that stands for data, `Library.Documented`.
-/

namespace PosDictionary.Json

/-! ## Meaning -/

/-- The members state a part of a record: the one with its name stands for it, or else there is none
and it is the default. -/
def States {α : Type} (members : List (String × Value)) (name : String) (default : Option α)
    (means : Value → α → Prop) (a : α) : Prop :=
  (∃ v, (name, v) ∈ members ∧ means v a) ∨ name ∉ members.map Prod.fst ∧ default = some a

/-- If the members have different names, the one with the name of a part stands for it. -/
theorem States.means_of_mem {α : Type} {members : List (String × Value)} {name : String}
    {default : Option α} {means : Value → α → Prop} {a : α} {v : Value}
    (h : States members name default means a) (nodup : (members.map Prod.fst).Nodup)
    (hm : (name, v) ∈ members) : means v a := by
  obtain ⟨v', hm', hmeans⟩ := h.resolve_right fun absent => absent.1 (List.mem_map_of_mem hm)
  obtain rfl : v = v' := congrArg Prod.snd (List.inj_on_of_nodup_map nodup hm hm' rfl)
  exact hmeans

mutual

/-- The value stands for the data. An object stands for a record if its members have different
names, all of them declared, and state its fields. -/
def Shape.Means {α : Type} : Shape α → Value → α → Prop
  | .string, v, text => v = .string text
  | .uint16, v, n => v = .number n.toUInt64
  | .list item, v, items => ∃ values, v = .list values ∧ List.Forall₂ item.Means values items
  | @Shape.record names _ _ _ fields make _ _, v, a =>
    ∃ members b, v = .object members ∧ (members.map Prod.fst).Nodup ∧
      members.map Prod.fst ⊆ names ∧ fields.AllStated members b ∧ make b = a

/-- The members state all of the fields. -/
def Fields.AllStated {names : List String} {β : Type} :
    Fields names β → List (String × Value) → β → Prop
  | .nil, _, _ => True
  | .cons name _ default shape rest, members, (a, b) =>
    States members name default shape.Means a ∧ rest.AllStated members b

end

/-- The names of fields are different. -/
theorem Fields.nodup_names {names : List String} {β : Type} : Fields names β → names.Nodup
  | .nil => List.nodup_nil
  | .cons _ isNew _ _ rest => List.nodup_cons.mpr ⟨isNew, rest.nodup_names⟩

/-- A record is written with all its fields. -/
theorem Fields.map_fst_membersOf {names : List String} {β : Type} :
    (fields : Fields names β) → (b : β) → (fields.membersOf b).map Prod.fst = names
  | .nil, _ => rfl
  | .cons _ _ _ _ rest, (_, b) => by
    rw [Fields.membersOf, List.map_cons, rest.map_fst_membersOf b]

mutual

/-- The value that is made of data stands for it. -/
theorem Shape.means_valueOf {α : Type} :
    (shape : Shape α) → (a : α) → shape.Means (shape.valueOf a) a
  | .string, _ => rfl
  | .uint16, _ => rfl
  | .list item, items =>
    ⟨_, rfl, List.forall₂_map_left_iff.mpr (List.forall₂_same.mpr fun a _ => item.means_valueOf a)⟩
  | .record _ fields _ parts make_parts, a => by
    refine ⟨_, parts a, rfl, ?_, ?_, fields.allStated_of_subset (List.Subset.refl _), make_parts a⟩
    · rw [fields.map_fst_membersOf]
      exact fields.nodup_names
    · rw [fields.map_fst_membersOf]
      exact List.Subset.refl _

/-- The members that are made of fields state these, also among others. -/
theorem Fields.allStated_of_subset {names : List String} {β : Type} :
    (fields : Fields names β) → {b : β} → {members : List (String × Value)} →
      fields.membersOf b ⊆ members → fields.AllStated members b
  | .nil, _, _, _ => trivial
  | .cons _ _ _ shape rest, (a, _), _, hsub =>
    have hsub := List.cons_subset.mp hsub
    ⟨.inl ⟨_, hsub.1, shape.means_valueOf a⟩, rest.allStated_of_subset hsub.2⟩

end

/-! ## Members in another order -/

section Members

variable {names : List String} {α β : Type} {fields : Fields names β} {make : β → α}
  {parts : α → β} {make_parts : ∀ a, make (parts a) = a} {all listed omitted : List (String × Value)}

/-- Members that are listed in another order state what they have stated before, also if some are
omitted that say no more than the default. -/
theorem states_of_perm {name : String} {default : Option α} {means : Value → α → Prop} {v : Value}
    {a : α} (hperm : (listed ++ omitted).Perm all) (nodup : (all.map Prod.fst).Nodup)
    (hmem : (name, v) ∈ all) (hmeans : means v a)
    (hdefault : (name, v) ∈ omitted → default = some a) : States listed name default means a := by
  rcases List.mem_append.mp (hperm.mem_iff.mpr hmem) with hlisted | homitted
  · exact .inl ⟨v, hlisted, hmeans⟩
  · have hmap := (hperm.map Prod.fst).nodup_iff.mpr nodup
    rw [List.map_append] at hmap
    refine .inr ⟨fun hlisted => ?_, hdefault homitted⟩
    exact (List.nodup_append.mp hmap).2.2 _ hlisted _ (List.mem_map_of_mem homitted) rfl

/-- Members that have the declared names, in another order and but for some, stand for a record if
they state its fields. -/
theorem Shape.means_of_perm {name : String} {a : α} (hperm : (listed ++ omitted).Perm all)
    (hnames : all.map Prod.fst = names) (hstated : fields.AllStated listed (parts a)) :
    (Shape.record name fields make parts make_parts).Means (.object listed) a := by
  have hmap := hperm.map Prod.fst
  rw [List.map_append, hnames] at hmap
  have nodup := (List.nodup_append.mp (hmap.nodup_iff.mpr fields.nodup_names)).1
  have hsub : listed.map Prod.fst ⊆ names := fun _ h => hmap.subset (List.mem_append_left _ h)
  exact ⟨listed, parts a, rfl, nodup, hsub, hstated, make_parts a⟩

end Members

/-! ## Nesting -/

/-- What is not nested deeper than some depth is not nested deeper than a greater one. -/
theorem Value.NestedWithin.mono {depth more : Nat} {v : Value} (h : v.NestedWithin depth)
    (hle : depth ≤ more) : v.NestedWithin more := by
  induction h generalizing more with
  | string => exact .string ..
  | number => exact .number ..
  | list _ ih =>
    obtain ⟨more, rfl⟩ := Nat.exists_eq_add_of_lt (Nat.lt_of_succ_le hle)
    exact .list fun v hv => ih v hv (by omega)
  | object _ ih =>
    obtain ⟨more, rfl⟩ := Nat.exists_eq_add_of_lt (Nat.lt_of_succ_le hle)
    exact .object fun m hm => ih m hm (by omega)

mutual

/-- A value that stands for data is not nested deeper than the data. -/
theorem Shape.nestedWithin_of_means {α : Type} : (shape : Shape α) → {v : Value} → {a : α} →
    shape.Means v a → v.NestedWithin shape.depth
  | .string, _, text, h => h ▸ .string _ text
  | .uint16, _, n, h => h ▸ .number _ n.toUInt64
  | .list item, _, items, h => by
    obtain ⟨values, rfl, hitems⟩ := h
    refine .list fun v hv => ?_
    obtain ⟨i, hi, rfl⟩ := List.getElem_of_mem hv
    exact item.nestedWithin_of_means (hitems.get hi (hitems.length_eq ▸ hi))
  | .record _ fields _ _ _, _, _, h => by
    obtain ⟨members, b, rfl, nodup, hsub, hstated, -⟩ := h
    exact .object fun m hm =>
      fields.nestedWithin_of_allStated hstated nodup m hm (hsub (List.mem_map_of_mem hm))

/-- The values of members that state fields are not nested deeper than these. -/
theorem Fields.nestedWithin_of_allStated {names : List String} {β : Type} :
    (fields : Fields names β) → {b : β} → {members : List (String × Value)} →
      fields.AllStated members b → (members.map Prod.fst).Nodup →
      ∀ m ∈ members, m.1 ∈ names → m.2.NestedWithin fields.depth
  | .nil, _, _, _, _, _, _, hname => absurd hname List.not_mem_nil
  | .cons first _ _ shape rest, (a, b), _, h, nodup, (name, v), hm, hname => by
    by_cases heq : first = name
    · subst heq
      have hmeans := h.1.means_of_mem nodup hm
      exact (shape.nestedWithin_of_means hmeans).mono (Nat.le_max_left _ _)
    · have hbehind := (List.mem_cons.mp hname).resolve_left (Ne.symm heq)
      have hrest := rest.nestedWithin_of_allStated h.2 nodup _ hm hbehind
      exact hrest.mono (Nat.le_max_right _ _)

end

/-! ## Libraries -/

/-- The library does what is documented of it: it knows the text of every value, and writes and
reads data as it is declared. -/
structure Library.Documented (library : Library) : Prop where
  /-- The text of a value has this value, unless the value is nested too deep. -/
  parse_print : ∀ {v : Value}, v.NestedWithin nestingLimit → library.parse (library.print v) = .ok v
  /-- Data is written as the text of the value that is made of it. -/
  write_eq : ∀ {α : Type} (shape : Shape α) (a : α),
    library.write shape a = .ok (library.print (shape.valueOf a))
  /-- A text is read as the data that its value stands for. -/
  read_eq : ∀ {α : Type} {shape : Shape α} {text : String} {v : Value} {a : α},
    library.parse text = .ok v → shape.Means v a → library.read shape text = .ok a

namespace Library.Documented

variable {library : Library} {α : Type} {shape : Shape α}

/-- The text of a value is read as the data that the value stands for. -/
theorem read_print (documented : library.Documented) (hdepth : shape.depth ≤ nestingLimit)
    {v : Value} {a : α} (h : shape.Means v a) : library.read shape (library.print v) = .ok a :=
  documented.read_eq (documented.parse_print ((shape.nestedWithin_of_means h).mono hdepth)) h

/-- What is written is read back. -/
theorem exists_write (documented : library.Documented) (hdepth : shape.depth ≤ nestingLimit)
    (a : α) : ∃ text, library.write shape a = .ok text ∧ library.read shape text = .ok a :=
  ⟨_, documented.write_eq shape a, documented.read_print hdepth (shape.means_valueOf a)⟩

end Library.Documented

end PosDictionary.Json
