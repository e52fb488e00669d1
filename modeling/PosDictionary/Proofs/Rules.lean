import Mathlib.Data.List.Chain
import PosDictionary.Failure
import PosDictionary.Proofs.Outcomes

/-!
# Judging by rules

Stored data is accepted or refused by rules that are asked one after the other. Here such a
procedure is described by the list of its rules: `judge` goes through them in turn, and
`FirstBroken` names the rule that decides a refusal.

* `judge_eq_ok_iff`: data is accepted when it keeps every rule;
* `judge_eq_error_iff`: a refusal reports the first broken rule, and is never a fault.
-/

namespace PosDictionary.Rules

variable {ρ σ : Type}

/-- Goes through the rules in turn and refuses for the first that does not hold. -/
def judge (holds : ρ → Prop) [DecidablePred holds] (error : ρ → Error) (rules : List ρ) :
    Except Failure Unit :=
  forM rules fun r => if holds r then .ok () else .error (.error (error r))

/-- `r` is the first of `rules` that does not hold: those before it do. -/
def FirstBroken (holds : ρ → Prop) (rules : List ρ) (r : ρ) : Prop :=
  ∃ before after, rules = before ++ r :: after ∧ (∀ q ∈ before, holds q) ∧ ¬ holds r

variable {holds : ρ → Prop} [DecidablePred holds] {error : ρ → Error}

/-! ## Rules one by one -/

/-- A rule that holds is passed over. -/
theorem judge_cons_of_holds {r : ρ} (h : holds r) (rules : List ρ) :
    judge holds error (r :: rules) = judge holds error rules := by
  unfold judge
  rw [List.forM_cons, if_pos h]
  rfl

/-- A rule that is broken is reported. -/
theorem judge_cons_of_broken {r : ρ} (h : ¬ holds r) (rules : List ρ) :
    judge holds error (r :: rules) = .error (.error (error r)) := by
  unfold judge
  rw [List.forM_cons, if_neg h]
  rfl

/-- Rules are judged in their order. -/
theorem judge_append (first rest : List ρ) :
    judge holds error (first ++ rest) =
      (judge holds error first >>= fun _ => judge holds error rest) :=
  List.forM_append

/-- Rules that come in groups are judged group by group. -/
theorem judge_flatMap {α : Type} (groups : List α) (rules : α → List ρ) :
    judge holds error (groups.flatMap rules) =
      forM groups fun a => judge holds error (rules a) := by
  induction groups with
  | nil => rfl
  | cons a groups ih => rw [List.flatMap_cons, judge_append, ih, List.forM_cons]

/-- Rules that stand for others are judged as those are. -/
theorem judge_map (f : σ → ρ) (rules : List σ) :
    judge holds error (rules.map f) = judge (fun r => holds (f r)) (fun r => error (f r)) rules :=
  List.forM_map

/-! ## What a judgement says -/

/-- Every rule holds, or one of them is the first that does not. -/
theorem all_or_firstBroken (holds : ρ → Prop) [DecidablePred holds] (rules : List ρ) :
    (∀ r ∈ rules, holds r) ∨ ∃ r, FirstBroken holds rules r := by
  induction rules with
  | nil => simp
  | cons q rules ih =>
    by_cases hq : holds q
    · rcases ih with hall | ⟨r, before, after, rfl, hbefore, hr⟩
      · exact .inl (List.forall_mem_cons.mpr ⟨hq, hall⟩)
      · exact .inr ⟨r, q :: before, after, rfl, List.forall_mem_cons.mpr ⟨hq, hbefore⟩, hr⟩
    · exact .inr ⟨q, [], rules, rfl, by simp, hq⟩

/-- Where all rules hold, nothing is reported. -/
theorem judge_of_all {rules : List ρ} (h : ∀ r ∈ rules, holds r) :
    judge holds error rules = .ok () := by
  induction rules with
  | nil => rfl
  | cons r rules ih =>
    obtain ⟨hr, hrules⟩ := List.forall_mem_cons.mp h
    rw [judge_cons_of_holds hr, ih hrules]

/-- The first rule that is broken is reported. -/
theorem judge_of_firstBroken {rules : List ρ} {r : ρ} (h : FirstBroken holds rules r) :
    judge holds error rules = .error (.error (error r)) := by
  obtain ⟨before, after, rfl, hbefore, hr⟩ := h
  rw [judge_append, judge_of_all hbefore, Outcome.ok_bind, judge_cons_of_broken hr]

/-- Data is accepted when it keeps every rule. -/
theorem judge_eq_ok_iff {rules : List ρ} :
    judge holds error rules = .ok () ↔ ∀ r ∈ rules, holds r := by
  refine ⟨?_, judge_of_all⟩
  intro h
  rcases all_or_firstBroken holds rules with hall | ⟨r, hr⟩
  · exact hall
  · rw [judge_of_firstBroken hr] at h
    cases h

/-- A refusal reports the first broken rule. -/
theorem judge_eq_error_iff {rules : List ρ} {f : Failure} :
    judge holds error rules = .error f ↔
      ∃ r, FirstBroken holds rules r ∧ f = .error (error r) := by
  constructor
  · intro h
    rcases all_or_firstBroken holds rules with hall | ⟨r, hr⟩
    · rw [judge_of_all hall] at h
      cases h
    · rw [judge_of_firstBroken hr] at h
      cases h
      exact ⟨r, hr, rfl⟩
  · rintro ⟨r, hr, rfl⟩
    exact judge_of_firstBroken hr

/-- The first broken rule is the one at the least place where a rule does not hold. -/
theorem firstBroken_iff_getElem {holds : ρ → Prop} {rules : List ρ} {r : ρ} :
    FirstBroken holds rules r ↔ ∃ (i : Nat) (h : i < rules.length),
      (∀ (j : Nat) (_ : j < i), holds rules[j]) ∧ ¬ holds rules[i] ∧ r = rules[i] := by
  constructor
  · rintro ⟨before, after, rfl, hbefore, hr⟩
    refine ⟨before.length, by simp, fun j hj => ?_, by simpa using hr, by simp⟩
    rw [List.getElem_append_left hj]
    exact hbefore _ (List.getElem_mem hj)
  · rintro ⟨i, h, hbefore, hr, rfl⟩
    refine ⟨rules.take i, rules.drop (i + 1), ?_, ?_, hr⟩
    · rw [← List.drop_eq_getElem_cons h, List.take_append_drop]
    · intro q hq
      obtain ⟨j, hj, rfl⟩ := List.mem_take_iff_getElem.mp hq
      exact hbefore j (by omega)

/-! ## Rules for neighbours -/

/-- A transitive relation along the first `n` numbers is judged between neighbours. -/
theorem pairwise_range_iff {R : Nat → Nat → Prop} (trans : ∀ {i j k}, R i j → R j k → R i k)
    (n : Nat) : (List.range n).Pairwise R ↔ ∀ i < n - 1, R i (i + 1) := by
  have : Trans R R R := ⟨trans⟩
  rw [← List.isChain_iff_pairwise, List.isChain_iff_getElem]
  simp only [List.length_range, List.getElem_range]
  exact forall_congr' fun i => by rw [Nat.lt_sub_iff_add_lt]

end PosDictionary.Rules
