import PosDictionary.Definition.Builder
import PosDictionary.Json.Definitions
import PosDictionary.Proofs.Json.Streamed

/-!
# Definitions that are read back

A form, a definition and an entry have values besides the one that is written: the members of any
object may be listed in any order, and a suffix that is empty may be left out, `WrittenAs`. Every
library that does what is documented reads all of them alike; so what is built from definitions
does not depend on which of their texts is read, `texts_read_back`.
-/

namespace PosDictionary

open Json

/-! ## Forms -/

namespace ConjugationForm

/-- The members of a form. -/
def members (f : ConjugationForm) : List (String × Value) :=
  [("key_suffix", .string f.keySuffix), ("value_suffix", .string f.valueSuffix),
    ("conjugation_id", .number f.conjugationId.toUInt64)]

/-- The members that may be left out. -/
def emptySuffixes : List (String × Value) :=
  [("key_suffix", .string ""), ("value_suffix", .string "")]

/-- The value lists the members of the form in some order; only suffixes that are empty are left
out. -/
def WrittenAs (f : ConjugationForm) (v : Value) : Prop :=
  ∃ listed omitted, (listed ++ omitted).Perm f.members ∧ omitted ⊆ emptySuffixes ∧
    v = .object listed

/-- A value that a form is written as stands for it. -/
theorem means_of_writtenAs {f : ConjugationForm} {v : Value} (h : f.WrittenAs v) :
    shape.Means v f := by
  obtain ⟨listed, omitted, hperm, homitted, rfl⟩ := h
  have nodup : (f.members.map Prod.fst).Nodup := by simp [members]
  refine Shape.means_of_perm hperm rfl ⟨?keySuffix, ?valueSuffix, ?conjugationId, trivial⟩
  case keySuffix =>
    refine states_of_perm hperm nodup (by simp [members]) rfl fun h => ?_
    have hempty : f.keySuffix = "" := by simpa [emptySuffixes] using homitted h
    exact congrArg some hempty.symm
  case valueSuffix =>
    refine states_of_perm hperm nodup (by simp [members]) rfl fun h => ?_
    have hempty : f.valueSuffix = "" := by simpa [emptySuffixes] using homitted h
    exact congrArg some hempty.symm
  case conjugationId =>
    refine states_of_perm hperm nodup (by simp [members]) rfl fun h => ?_
    simpa [emptySuffixes] using homitted h

end ConjugationForm

/-! ## Definitions -/

namespace PosDefinition

/-- The members of a definition, with these values of its forms. -/
def members (d : PosDefinition) (forms : List Value) : List (String × Value) :=
  [("name", .string d.name), ("forms", .list forms)]

/-- The value lists the members of the definition in some order, with any values that its forms are
written as. -/
def WrittenAs (d : PosDefinition) (v : Value) : Prop :=
  ∃ forms listed, List.Forall₂ ConjugationForm.WrittenAs d.forms forms ∧
    listed.Perm (d.members forms) ∧ v = .object listed

/-- The value lists the definitions in their order, with any value that each is written as. -/
def AllWrittenAs (ds : List PosDefinition) (v : Value) : Prop :=
  ∃ values, List.Forall₂ WrittenAs ds values ∧ v = .list values

/-- A value that a definition is written as stands for it. -/
theorem means_of_writtenAs {d : PosDefinition} {v : Value} (h : d.WrittenAs v) :
    shape.Means v d := by
  obtain ⟨forms, listed, hforms, hperm, rfl⟩ := h
  have hmeans : ConjugationForm.shape.list.Means (.list forms) d.forms :=
    ⟨forms, rfl, (hforms.imp fun _ _ => ConjugationForm.means_of_writtenAs).flip⟩
  have hmem : ∀ m ∈ d.members forms, m ∈ listed := fun m hm => hperm.mem_iff.mpr hm
  rw [← List.append_nil listed] at hperm
  refine Shape.means_of_perm hperm rfl ⟨.inl ⟨_, ?name, rfl⟩, .inl ⟨_, ?forms, hmeans⟩, trivial⟩
  case name => exact hmem _ (by simp [members])
  case forms => exact hmem _ (by simp [members])

/-- A value that definitions are written as stands for them. -/
theorem means_of_allWrittenAs {ds : List PosDefinition} {v : Value} (h : AllWrittenAs ds v) :
    shape.list.Means v ds := by
  obtain ⟨values, hvalues, rfl⟩ := h
  exact ⟨values, rfl, (hvalues.imp fun _ _ => means_of_writtenAs).flip⟩

end PosDefinition

/-! ## Entries -/

namespace UserEntry

/-- The members of an entry. -/
def members (e : UserEntry) : List (String × Value) :=
  [("key", .string e.key), ("value", .string e.value), ("pos", .string e.pos)]

/-- The value lists the members of the entry in some order. -/
def WrittenAs (e : UserEntry) (v : Value) : Prop :=
  ∃ listed : List (String × Value), listed.Perm e.members ∧ v = .object listed

/-- A value that an entry is written as stands for it. -/
theorem means_of_writtenAs {e : UserEntry} {v : Value} (h : e.WrittenAs v) :
    shape.Means v e := by
  obtain ⟨listed, hperm, rfl⟩ := h
  have hmem : ∀ m ∈ e.members, m ∈ listed := fun m hm => hperm.mem_iff.mpr hm
  rw [← List.append_nil listed] at hperm
  refine Shape.means_of_perm hperm rfl
    ⟨.inl ⟨_, ?key, rfl⟩, .inl ⟨_, ?value, rfl⟩, .inl ⟨_, ?pos, rfl⟩, trivial⟩
  case key => exact hmem _ (by simp [members])
  case value => exact hmem _ (by simp [members])
  case pos => exact hmem _ (by simp [members])

end UserEntry

/-! ## All values -/

namespace Json

/-- What is built from the definitions of a JSON text: the data, or the refusal of the builder. -/
def Library.dataOf (library : Library) (text : String) :
    Except library.Refusal (Except Error Segments) :=
  (library.read PosDefinition.shape.list text).map fun ds =>
    Builder.ofDefinitions ds >>= fun b => b.finish.outcome

/-- **What is written is read back.** With every library that does what is documented, forms,
entries and lists of definitions are written and read back from their text, whatever their strings
and numbers are. They are also read from the text of every value that lists the members of any
object in another order, or leaves out suffixes that are empty, and from any other text that has
such a value; and such a text of definitions builds the very same data, or is refused alike. -/
theorem texts_read_back (library : Library) (documented : library.Documented) :
    (∀ f : ConjugationForm, ∃ text, library.write ConjugationForm.shape f = .ok text ∧
      library.read ConjugationForm.shape text = .ok f ∧
      ∀ v, f.WrittenAs v → library.read ConjugationForm.shape (library.print v) = .ok f ∧
        ∀ other, library.parse other = .ok v →
          library.read ConjugationForm.shape other = .ok f) ∧
    (∀ e : UserEntry, ∃ text, library.write UserEntry.shape e = .ok text ∧
      library.read UserEntry.shape text = .ok e ∧
      ∀ v, e.WrittenAs v → library.read UserEntry.shape (library.print v) = .ok e ∧
        ∀ other, library.parse other = .ok v → library.read UserEntry.shape other = .ok e) ∧
    ∀ ds : List PosDefinition, ∃ text, library.write PosDefinition.shape.list ds = .ok text ∧
      library.read PosDefinition.shape.list text = .ok ds ∧
      ∀ v, PosDefinition.AllWrittenAs ds v →
        (library.read PosDefinition.shape.list (library.print v) = .ok ds ∧
          library.dataOf (library.print v) = library.dataOf text) ∧
        ∀ other, library.parse other = .ok v →
          library.read PosDefinition.shape.list other = .ok ds ∧
            library.dataOf other = library.dataOf text := by
  have hform : ConjugationForm.shape.depth ≤ nestingLimit := by decide
  have hentry : UserEntry.shape.depth ≤ nestingLimit := by decide
  have hlist : PosDefinition.shape.list.depth ≤ nestingLimit := by decide
  refine ⟨fun f => ?_, fun e => ?_, fun ds => ?_⟩
  · obtain ⟨text, hwrite, hread⟩ := documented.exists_write hform f
    refine ⟨text, hwrite, hread, fun v h => ?_⟩
    have hmeans := ConjugationForm.means_of_writtenAs h
    exact ⟨documented.read_print hform hmeans, fun _ hparse => documented.read_eq hparse hmeans⟩
  · obtain ⟨text, hwrite, hread⟩ := documented.exists_write hentry e
    refine ⟨text, hwrite, hread, fun v h => ?_⟩
    have hmeans := UserEntry.means_of_writtenAs h
    exact ⟨documented.read_print hentry hmeans, fun _ hparse => documented.read_eq hparse hmeans⟩
  · obtain ⟨text, hwrite, hread⟩ := documented.exists_write hlist ds
    refine ⟨text, hwrite, hread, fun v h => ?_⟩
    have hmeans := PosDefinition.means_of_allWrittenAs h
    have hsame : ∀ other, library.read PosDefinition.shape.list other = .ok ds →
        library.dataOf other = library.dataOf text := by
      intro other hother
      unfold Library.dataOf
      rw [hother, hread]
    have hprint := documented.read_print hlist hmeans
    refine ⟨⟨hprint, hsame _ hprint⟩, fun other hparse => ?_⟩
    have hother := documented.read_eq hparse hmeans
    exact ⟨hother, hsame other hother⟩

/-- A value of a definition that has its name last, and a form of which only the number is given. -/
def nameLast : Value :=
  .list [.object [("forms", .list [.object [("conjugation_id", .number 1)]]),
    ("name", .string "noun")]]

/-- The library that reads from left to right, and the value above. -/
theorem texts_read_back_nameLast :
    streamed.Documented ∧ PosDefinition.AllWrittenAs [⟨"noun", [⟨"", "", 1⟩]⟩] nameLast ∧
      PosDefinition.listOfJson nameLast.text = .ok [⟨"noun", [⟨"", "", 1⟩]⟩] := by
  have hperm : ([("conjugation_id", Value.number 1)] ++ ConjugationForm.emptySuffixes).Perm
      (ConjugationForm.members ⟨"", "", 1⟩) := List.perm_append_comm
  have hform : ConjugationForm.WrittenAs ⟨"", "", 1⟩ (.object [("conjugation_id", .number 1)]) :=
    ⟨_, _, hperm, List.Subset.refl _, rfl⟩
  have hwritten : PosDefinition.AllWrittenAs [⟨"noun", [⟨"", "", 1⟩]⟩] nameLast :=
    ⟨_, .cons ⟨_, _, .cons hform .nil, .swap _ _ _, rfl⟩ .nil, rfl⟩
  obtain ⟨-, -, hlists⟩ := texts_read_back streamed documented_streamed
  obtain ⟨_, -, -, hread⟩ := hlists [⟨"noun", [⟨"", "", 1⟩]⟩]
  exact ⟨documented_streamed, hwritten, (hread nameLast hwritten).1.1⟩

end Json

end PosDictionary
