import PosDictionary.Proofs.Definition.Accepted

/-!
# Offers to a builder

A builder that is kept by its caller is offered definitions one after the other, and goes on after a
refusal. What it holds are then the definitions that it has accepted, in their order, and a refusal
leaves no trace: neither a definition nor a name. This is an invariant of single offers,
`Holds.offer`, and so of every sequence of them, `Holds.after`.

A builder that is made of definitions at once goes through the same offers up to the first refusal,
`addAll_eq`.
-/

namespace PosDictionary.Builder

open Outcome

variable {b : Builder} {ds : List PosDefinition} {d : PosDefinition}

/-! ## A single offer -/

/-- What a builder that holds the definitions `ds` makes of the offer of `d`. -/
structure Judges (b : Builder) (ds : List PosDefinition) (d : PosDefinition) : Prop where
  /-- It accepts a definition that has a form and a new name. -/
  ok_iff : (b.offer d).1 = .ok () ↔ d.forms ≠ [] ∧ ∀ c ∈ ds, c.name ≠ d.name
  /-- Without a form it refuses it for that reason, and stays as it is. -/
  refused_noForms : d.forms = [] → b.offer d = (.error (noForms d.name), b)
  /-- With a known name it refuses it for that reason, and stays as it is. -/
  refused_definedTwice : d.forms ≠ [] → (∃ c ∈ ds, c.name = d.name) →
    b.offer d = (.error (definedTwice d.name), b)

/-- A builder judges a definition by those that it holds. -/
theorem Holds.judges (h : b.Holds ds) (d : PosDefinition) : b.Judges ds d where
  ok_iff := by
    have hnew : d.name ∉ b.names ↔ ∀ c ∈ ds, c.name ≠ d.name := by
      rw [h.mem_names, List.mem_map]
      simp
    rw [← hnew]
    by_cases hforms : d.forms = []
    · simp [offer_of_noForms hforms, hforms]
    · by_cases hname : d.name ∈ b.names
      · simp [offer_of_known hforms hname, hname]
      · simp [offer_of_new hforms hname, hforms, hname]
  refused_noForms := offer_of_noForms
  refused_definedTwice hforms hsame :=
    offer_of_known hforms ((h.mem_names d.name).mpr (List.mem_map.mpr hsame))

/-! ## Offers one after the other -/

/-- The builder after some offers. -/
def after (b : Builder) (offers : List PosDefinition) : Builder :=
  offers.foldl (fun b d => (b.offer d).2) b

/-- The answers to some offers. -/
def answers (b : Builder) : List PosDefinition → List (Except Error Unit)
  | [] => []
  | d :: offers => (b.offer d).1 :: (b.offer d).2.answers offers

/-- Those of some offers that are accepted. -/
def accepted (b : Builder) (offers : List PosDefinition) : List PosDefinition :=
  ((offers.zip (b.answers offers)).filter fun offer => offer.2.isOk).map Prod.fst

/-- What is accepted of offers is what is accepted of the first, then of the others. -/
theorem accepted_cons (b : Builder) (d : PosDefinition) (offers : List PosDefinition) :
    b.accepted (d :: offers) =
      (if (b.offer d).1.isOk then [d] else []) ++ (b.offer d).2.accepted offers := by
  unfold accepted
  rw [answers, List.zip_cons_cons, List.filter_cons]
  split <;> rfl

/-- A builder holds a definition behind the others if it accepts it, and else no other ones. -/
theorem Holds.offer (h : b.Holds ds) (d : PosDefinition) :
    (b.offer d).2.Holds (ds ++ if (b.offer d).1.isOk then [d] else []) := by
  rw [offer_eq]
  cases hadd : b.addPos d with
  | ok c => exact h.addPos hadd
  | error e => exact (List.append_nil ds).symm ▸ h

/-- A builder holds the definitions that it has accepted behind the others. -/
theorem Holds.after (h : b.Holds ds) (offers : List PosDefinition) :
    (b.after offers).Holds (ds ++ b.accepted offers) := by
  unfold Builder.after
  induction offers generalizing b ds with
  | nil => exact (List.append_nil ds).symm ▸ h
  | cons d offers ih =>
    rw [List.foldl_cons, accepted_cons, ← List.append_assoc]
    exact ih (h.offer d)

/-- After offers, a builder holds what it has accepted of them. -/
theorem holds_after (offers : List PosDefinition) :
    (empty.after offers).Holds (empty.accepted offers) :=
  holds_empty.after offers

/-- As many definitions are accepted as offers are answered with success. -/
theorem length_accepted (b : Builder) (offers : List PosDefinition) :
    (b.accepted offers).length = (b.answers offers).countP Except.isOk := by
  induction offers generalizing b with
  | nil => rfl
  | cons d offers ih =>
    rw [accepted_cons, answers, List.length_append, ih, List.countP_cons, Nat.add_comm]
    split <;> rfl

/-! ## Definitions that are taken at once -/

/-- Taking definitions at once goes through the answers to their offers up to the first refusal. -/
theorem addAll_eq (b : Builder) (offers : List PosDefinition) :
    b.addAll offers = (forM (b.answers offers) id >>= fun _ => .ok (b.after offers)) := by
  unfold addAll
  induction offers generalizing b with
  | nil => rfl
  | cons d offers ih =>
    rw [List.foldlM_cons, answers, List.forM_cons, Builder.after, List.foldl_cons, offer_eq]
    cases b.addPos d with
    | ok c => exact ih c
    | error e => rfl

/-- Definitions are taken at once exactly if each of their offers is accepted. -/
theorem ofDefinitions_eq_ok_iff {offers : List PosDefinition} :
    ofDefinitions offers = .ok b ↔
      (∀ answer ∈ empty.answers offers, answer = .ok ()) ∧ b = empty.after offers := by
  unfold ofDefinitions
  rw [addAll_eq, bind_eq_ok]
  constructor
  · rintro ⟨⟨⟩, hall, hb⟩
    exact ⟨forM_eq_ok_iff.mp hall, (Except.ok.inj hb).symm⟩
  · rintro ⟨hall, rfl⟩
    exact ⟨(), forM_eq_ok_iff.mpr hall, rfl⟩

/-- The refusal of definitions is that of the first of their offers that is refused. -/
theorem ofDefinitions_eq_error_iff {offers : List PosDefinition} {e : Error} :
    ofDefinitions offers = .error e ↔
      ∃ before rest, empty.answers offers = before ++ .error e :: rest ∧
        ∀ answer ∈ before, answer = .ok () := by
  unfold ofDefinitions
  rw [addAll_eq, bind_eq_error, forM_eq_error_iff]
  constructor
  · rintro (⟨before, answer, rest, hsplit, rfl, hbefore⟩ | ⟨_, -, hrest⟩)
    · exact ⟨before, rest, hsplit, hbefore⟩
    · cases hrest
  · rintro ⟨before, rest, hsplit, hbefore⟩
    exact .inl ⟨before, _, rest, hsplit, rfl, hbefore⟩

/-- Offers are all accepted if they have forms and different names. -/
theorem accepted_eq_self (nodup : (ds.map PosDefinition.name).Nodup)
    (forms : ∀ d ∈ ds, d.forms ≠ []) : empty.accepted ds = ds := by
  obtain ⟨b, hb⟩ := exists_ofDefinitions_iff.mpr ⟨nodup, forms⟩
  have hafter := (ofDefinitions_eq_ok_iff.mp hb).2
  have hholds := holds_of_ofDefinitions hb
  rw [← (holds_after ds).definitions_eq, ← hafter, hholds.definitions_eq]

/-- **An offer is accepted or leaves no trace.** After any offers, some of which may have been
refused, a builder holds the definitions that it has accepted, in their order: it knows their names
and no others, no two of them have the same name, and each has a form. It accepts the next
definition if that has a form and a name that no accepted one has. It refuses any other as an
inadmissible argument, and is then the builder that it was before. Definitions that are taken at
once are accepted if each of their offers is, and are else refused as the first of these that is. -/
theorem offers_leave_accepted_definitions (offers : List PosDefinition) :
    (empty.after offers).Holds (empty.accepted offers) ∧
      (empty.after offers).posCount = (empty.answers offers).countP Except.isOk ∧
      (∀ d, (empty.after offers).Judges (empty.accepted offers) d) ∧
      (∀ b, ofDefinitions offers = .ok b ↔
        (∀ answer ∈ empty.answers offers, answer = .ok ()) ∧ b = empty.after offers) ∧
      ∀ e, ofDefinitions offers = .error e ↔
        ∃ before rest, empty.answers offers = before ++ .error e :: rest ∧
          ∀ answer ∈ before, answer = .ok () := by
  have h := holds_after offers
  refine ⟨h, ?_, h.judges, fun _ => ofDefinitions_eq_ok_iff, fun _ => ofDefinitions_eq_error_iff⟩
  unfold posCount
  rw [← length_accepted, ← Array.length_toList, h.definitions_eq]

end PosDictionary.Builder
