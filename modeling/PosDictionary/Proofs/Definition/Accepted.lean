import PosDictionary.Definition.Builder
import PosDictionary.Proofs.Outcomes
import PosDictionary.Proofs.StringTable.Members

/-!
# Definitions that a builder has taken

A builder is known by the definitions that it has taken, in their order: `Builder.Holds`. Their
names are pairwise different and each has a form. Every definition that is added keeps this
(`Holds.addPos`), and so does every list of definitions (`Holds.addAll`).

A definition is added by an offer, and an offer has three outcomes: it is refused for its forms, it
is refused for its name, or the definition is taken. Only the last changes the builder,
`offer_eq`.
-/

namespace PosDictionary.Builder

open Outcome

/-- The builder has taken these definitions. -/
structure Holds (b : Builder) (ds : List PosDefinition) : Prop where
  /-- It keeps them in their order. -/
  definitions_eq : b.definitions.toList = ds
  /-- It knows their names and no others. -/
  mem_names : ∀ s, s ∈ b.names ↔ s ∈ ds.map PosDefinition.name
  /-- No two have the same name. -/
  nodup : (ds.map PosDefinition.name).Nodup
  /-- Each has a form. -/
  forms_ne_nil : ∀ d ∈ ds, d.forms ≠ []

variable {b b' : Builder} {ds : List PosDefinition}

/-- A new builder holds no definitions. -/
theorem holds_empty : empty.Holds [] where
  definitions_eq := rfl
  mem_names s := by simp [empty]
  nodup := List.nodup_nil
  forms_ne_nil := by simp

/-- A builder counts the definitions that it holds. -/
theorem Holds.posCount_eq (h : b.Holds ds) : b.posCount = ds.length := by
  rw [posCount, ← Array.length_toList, h.definitions_eq]

/-! ## A single offer -/

/-- A set stays as it is when a member is inserted. -/
theorem insert_eq_self {names : Std.HashSet String} {s : String} (h : s ∈ names) :
    names.insert s = names := by
  -- The library states this of the members of the set only, so the bucket of `s` is looked at.
  obtain ⟨⟨⟨⟨size, buckets⟩, wf⟩⟩⟩ := names
  have hbucket : Std.DHashMap.Internal.Raw₀.contains ⟨⟨size, buckets⟩, wf.size_buckets_pos⟩ s = true :=
    h
  simp only [Std.DHashMap.Internal.Raw₀.contains] at hbucket
  simp only [Std.HashSet.insert, Std.HashMap.insertIfNew, Std.DHashMap.insertIfNew,
    Std.DHashMap.Internal.Raw₀.insertIfNew, hbucket, if_true]

variable {d : PosDefinition}

/-- A definition without a form is refused before its name is looked at. -/
theorem offer_of_noForms (hforms : d.forms = []) :
    b.offer d = (.error (noForms d.name), b) := by
  simp [offer, hforms]

/-- A known name is registered again, which changes nothing. -/
theorem offer_of_known (hforms : d.forms ≠ []) (hname : d.name ∈ b.names) :
    b.offer d = (.error (definedTwice d.name), b) := by
  simp [offer, hforms, hname, insert_eq_self hname]

/-- A definition with a form and a new name is taken behind the others. -/
theorem offer_of_new (hforms : d.forms ≠ []) (hname : d.name ∉ b.names) :
    b.offer d = (.ok (), ⟨b.definitions.push d, b.names.insert d.name⟩) := by
  simp [offer, hforms, hname]

/-- Where adding fails, an offer has left the builder as it was. -/
theorem offer_eq (b : Builder) (d : PosDefinition) :
    b.offer d =
      match b.addPos d with
      | .ok after => (.ok (), after)
      | .error e => (.error e, b) := by
  unfold addPos
  by_cases hforms : d.forms = []
  · rw [offer_of_noForms hforms]
    rfl
  · by_cases hname : d.name ∈ b.names
    · rw [offer_of_known hforms hname]
      rfl
    · rw [offer_of_new hforms hname]
      rfl

/-! ## Definitions one after the other -/

/-- A definition is taken when it has a form and its name is new. -/
theorem addPos_eq_ok_iff (h : b.Holds ds) :
    b.addPos d = .ok b' ↔ d.forms ≠ [] ∧ d.name ∉ ds.map PosDefinition.name ∧
      b' = ⟨b.definitions.push d, b.names.insert d.name⟩ := by
  rw [← h.mem_names]
  unfold addPos
  by_cases hforms : d.forms = []
  · simp [offer_of_noForms hforms, hforms, Except.map]
  · by_cases hname : d.name ∈ b.names
    · simp [offer_of_known hforms hname, hname, Except.map]
    · simp [offer_of_new hforms hname, hforms, hname, Except.map, eq_comm]

/-- A definition that is taken comes behind those that were there. -/
theorem Holds.addPos (h : b.Holds ds) (hadd : b.addPos d = .ok b') :
    b'.Holds (ds ++ [d]) := by
  obtain ⟨hforms, hname, rfl⟩ := (addPos_eq_ok_iff h).mp hadd
  refine ⟨?_, ?_, ?_, ?_⟩
  · rw [Array.toList_push, h.definitions_eq]
  · intro s
    rw [Std.HashSet.mem_insert, h.mem_names, List.map_append, List.mem_append, beq_iff_eq]
    simp only [List.map_cons, List.map_nil, List.mem_singleton]
    rw [or_comm, eq_comm]
  · rw [List.map_append, List.nodup_append]
    refine ⟨h.nodup, by simp, ?_⟩
    intro s hs t ht
    rintro rfl
    simp only [List.map_cons, List.map_nil, List.mem_singleton] at ht
    exact hname (ht ▸ hs)
  · intro c hc
    rcases List.mem_append.mp hc with hc | hc
    · exact h.forms_ne_nil c hc
    · rwa [List.mem_singleton.mp hc]

/-- Definitions that are taken come behind those that were there. -/
theorem Holds.addAll (h : b.Holds ds) {more : List PosDefinition}
    (hadd : b.addAll more = .ok b') : b'.Holds (ds ++ more) := by
  unfold Builder.addAll at hadd
  induction more generalizing b ds with
  | nil =>
    cases hadd
    rwa [List.append_nil]
  | cons d more ih =>
    rw [List.foldlM_cons] at hadd
    obtain ⟨c, hc, hadd⟩ := bind_eq_ok.mp hadd
    rw [List.append_cons]
    exact ih (h.addPos hc) hadd

/-- A builder that is made of definitions holds these. -/
theorem holds_of_ofDefinitions (h : ofDefinitions ds = .ok b) : b.Holds ds :=
  holds_empty.addAll h

/-- Definitions with forms and with new names are taken. -/
theorem Holds.exists_addAll (h : b.Holds ds) {more : List PosDefinition}
    (nodup : ((ds ++ more).map PosDefinition.name).Nodup) (forms : ∀ d ∈ more, d.forms ≠ []) :
    ∃ b', b.addAll more = .ok b' := by
  unfold Builder.addAll
  induction more generalizing b ds with
  | nil => exact ⟨b, rfl⟩
  | cons d more ih =>
    obtain ⟨hd, hmore⟩ := List.forall_mem_cons.mp forms
    have hnew : d.name ∉ ds.map PosDefinition.name := by
      rw [List.map_append, List.map_cons, List.nodup_middle, List.nodup_cons] at nodup
      exact fun hmem => nodup.1 (List.mem_append_left _ hmem)
    have hadd := (addPos_eq_ok_iff h).mpr ⟨hd, hnew, rfl⟩
    rw [List.append_cons] at nodup
    rw [List.foldlM_cons, hadd, ok_bind]
    exact ih (h.addPos hadd) nodup hmore

/-- A builder takes exactly the definitions that have forms and different names. -/
theorem exists_ofDefinitions_iff {ds : List PosDefinition} :
    (∃ b, ofDefinitions ds = .ok b) ↔
      (ds.map PosDefinition.name).Nodup ∧ ∀ d ∈ ds, d.forms ≠ [] := by
  constructor
  · rintro ⟨b, hb⟩
    have h := holds_of_ofDefinitions hb
    exact ⟨h.nodup, h.forms_ne_nil⟩
  · rintro ⟨nodup, forms⟩
    exact holds_empty.exists_addAll nodup forms

/-! ## The strings of definitions -/

/-- The strings that definitions use. -/
theorem mem_strings (h : b.Holds ds) {s : String} :
    s ∈ b.strings.members ↔ ∃ d ∈ ds, s ∈ d.strings := by
  have hfold : ∀ (ds : List PosDefinition) (set : StringSet),
      s ∈ (ds.foldl (fun set d => set.insertAll d.strings) set).members ↔
        (∃ d ∈ ds, s ∈ d.strings) ∨ s ∈ set.members := by
    intro ds
    induction ds with
    | nil => simp
    | cons d ds ih =>
      intro set
      rw [List.foldl_cons, ih, StringSet.mem_insertAll]
      simp only [List.exists_mem_cons_iff]
      grind
  unfold strings
  rw [← Array.foldl_toList, h.definitions_eq, hfold]
  simp [StringSet.empty]

/-- The strings that a builder writes, in their order. -/
abbrev texts (b : Builder) : List String := b.strings.toSortedList

/-- The strings of a builder ascend. -/
theorem ascending_texts (b : Builder) : b.texts.Pairwise Text.Before :=
  StringSet.ascending_toSortedList b.strings

/-- The strings of a builder are those of its definitions. -/
theorem mem_texts (h : b.Holds ds) {s : String} : s ∈ b.texts ↔ ∃ d ∈ ds, s ∈ d.strings := by
  unfold texts
  rw [StringSet.mem_toSortedList, mem_strings h]

/-- A builder writes every string that its definitions use once. -/
theorem texts_perm_dedup (h : b.Holds ds) :
    b.texts.Perm (ds.flatMap PosDefinition.strings).dedup := by
  rw [List.perm_ext_iff_of_nodup b.ascending_texts.nodup (List.nodup_dedup _)]
  intro s
  rw [mem_texts h, List.mem_dedup, List.mem_flatMap]

/-- The strings that a builder writes are those that its definitions use, in ascending order. -/
theorem texts_eq (h : b.Holds ds) {texts : List String} (ascending : texts.Pairwise Text.Before)
    (used : ∀ s, s ∈ texts ↔ ∃ d ∈ ds, s ∈ d.strings) : b.texts = texts :=
  b.ascending_texts.eq_of_mem_iff ascending fun s => by
    rw [mem_texts h, used]

end PosDictionary.Builder
