import Mathlib.Data.List.Nodup
import PosDictionary.Proofs.Digits
import PosDictionary.Proofs.Sample.Random
import PosDictionary.Sample.Generator

/-!
# Samples

What is made with the numbers of a source depends on what the source has given before. So what
`gather` makes at a place is made from the state that the source is in there, `stateAt`, and this
state depends only on what was made before that place, `toList_gather`.

Nothing is known of the source but that it is sound: what it draws from a range lies there, and it
shuffles without loss. Every definition of a sample has the name of its number, a form and short
suffixes, `Sampled`. The definitions are in no particular order, but apart from that a sample is the
same as far as it goes, however many definitions are made: `posSet_samples`.
-/

namespace PosDictionary.Sample

/-! ## Making items in turn -/

section Gather

variable {σ α : Type}

/-- The state when the item at a place is made. -/
def stateAt (make : Nat → σ → α × σ) (state : σ) (i : Nat) : σ := (gather make i state).2

/-- The item at a place. -/
def madeAt (make : Nat → σ → α × σ) (state : σ) (i : Nat) : α := (make i (stateAt make state i)).1

/-- One item more is made from where the others have left the state. -/
theorem gather_succ (make : Nat → σ → α × σ) (count : Nat) (state : σ) :
    gather make (count + 1) state =
      ((gather make count state).1.push (madeAt make state count),
        (make count (stateAt make state count)).2) := by
  unfold gather
  rw [List.range_succ, List.foldl_append]
  rfl

/-- What is gathered has an item for each place. -/
theorem toList_gather (make : Nat → σ → α × σ) (count : Nat) (state : σ) :
    (gather make count state).1.toList = (List.range count).map (madeAt make state) := by
  induction count with
  | zero => rfl
  | succ count ih =>
    rw [gather_succ, Array.toList_push, ih, List.range_succ, List.map_append]
    rfl

/-- As many items are gathered as are asked for. -/
theorem length_toList_gather (make : Nat → σ → α × σ) (count : Nat) (state : σ) :
    (gather make count state).1.toList.length = count := by
  rw [toList_gather, List.length_map, List.length_range]

/-- What holds of every item that can be made holds of those that are gathered. -/
theorem forall_mem_gather {make : Nat → σ → α × σ} {p : α → Prop}
    (h : ∀ i state, p (make i state).1) (count : Nat) (state : σ) :
    ∀ a ∈ (gather make count state).1.toList, p a := by
  intro a ha
  rw [toList_gather, List.mem_map] at ha
  obtain ⟨i, -, rfl⟩ := ha
  exact h i _

end Gather

/-! ## Suffixes and forms -/

/-- A suffix has at most two characters, which are kana. -/
structure IsSuffix (s : String) : Prop where
  length_le : s.toList.length ≤ 2
  mem_kana : ∀ c ∈ s.toList, c ∈ kana

/-- Both suffixes of a form are suffixes. -/
structure Suffixed (f : ConjugationForm) : Prop where
  key : IsSuffix f.keySuffix
  value : IsSuffix f.valueSuffix

/-- A POS has a form, and no more forms than it may have. -/
structure Bounded (maxForms : Nat) (fs : List ConjugationForm) : Prop where
  one_le : 1 ≤ fs.length
  length_le : fs.length ≤ maxForms
  suffixed : ∀ f ∈ fs, Suffixed f

namespace Source

variable {source : Source} (sound : source.Sound)

include sound

/-- The place that is drawn is one of the characters. -/
theorem kanaChar_mem (state : source.State) : (source.kanaChar state).1 ∈ kana := by
  obtain ⟨-, hlt⟩ := sound.between_within (Nat.succ_pos 33) state
  show kana.getD (source.between 0 kana.size state).1 'あ' ∈ kana
  rw [Array.getD_eq_getD_getElem?, Array.getElem?_eq_getElem hlt, Option.getD_some]
  exact Array.getElem_mem hlt

/-- A text of kana is as long as it should be. -/
theorem kanaString_toList {least bound : Nat} (h : least < bound) (state : source.State) :
    least ≤ (source.kanaString least bound state).1.toList.length ∧
      (source.kanaString least bound state).1.toList.length < bound ∧
      ∀ c ∈ (source.kanaString least bound state).1.toList, c ∈ kana := by
  obtain ⟨hle, hlt⟩ := sound.between_within h state
  unfold kanaString
  simp only [String.toList_ofList, length_toList_gather]
  exact ⟨hle, hlt, forall_mem_gather (fun _ => kanaChar_mem sound) _ _⟩

/-- A string of up to three kana is a suffix. -/
theorem kanaString_isSuffix (state : source.State) : IsSuffix (source.kanaString 0 3 state).1 := by
  obtain ⟨-, hlt, hkana⟩ := kanaString_toList sound (Nat.succ_pos 2) state
  exact ⟨Nat.le_of_lt_succ hlt, hkana⟩

/-- Whether the suffix is taken over or made anew, it is one. -/
theorem writtenSuffix_isSuffix {suffix : String} (h : IsSuffix suffix) (state : source.State) :
    IsSuffix (source.writtenSuffix suffix state).1 := by
  unfold writtenSuffix
  simp only
  split
  · exact kanaString_isSuffix sound _
  · exact h

/-- A form that is drawn has suffixes that can be drawn. -/
theorem form_suffixed (state : source.State) : Suffixed (source.form state).1 := by
  have hkey := kanaString_isSuffix sound state
  exact ⟨hkey, writtenSuffix_isSuffix sound hkey _⟩

/-- The number of forms is drawn from 1 up to `maxForms`. -/
theorem forms_bounded {maxForms : Nat} (h : 1 ≤ maxForms) (state : source.State) :
    Bounded maxForms (source.forms maxForms state).1 := by
  obtain ⟨hle, hlt⟩ := sound.between_within (Nat.lt_succ_of_le h) state
  have hlen : (source.forms maxForms state).1.length =
      (source.between 1 (maxForms + 1) state).1 :=
    length_toList_gather (fun _ => source.form) _ _
  refine ⟨hlen ▸ hle, hlen ▸ Nat.le_of_lt_succ hlt, ?_⟩
  exact forall_mem_gather (fun _ => form_suffixed sound) _ _

end Source

/-! ## Names -/

/-- The name of the POS with number `i` ends in the digits of the number. There are at least four,
and zeros come first only if there are no more. -/
structure Numbered (i : Nat) (name : String) (digits : List Char) : Prop where
  toList_eq : name.toList = '品' :: '詞' :: digits
  isDigit : ∀ c ∈ digits, c.isDigit
  value_eq : Nat.ofDigitChars 10 digits 0 = i
  four_le : 4 ≤ digits.length
  length_of_zero : digits.head? = some '0' → digits.length = 4

/-- A name ends in the digits of its number, with zeros in front of fewer than four. -/
theorem posName_toList (i : Nat) : (posName i).toList = '品' :: '詞' ::
    (List.replicate (4 - (Nat.toDigits 10 i).length) '0' ++ Nat.toDigits 10 i) := by
  unfold posName
  rw [Nat.toList_repr]
  simp only [String.toList_append, String.toList_ofList]
  rfl

/-- Every name is a numbered one. -/
theorem posName_numbered (i : Nat) : ∃ digits, Numbered i (posName i) digits := by
  refine ⟨_, posName_toList i, ?_, ?_, ?_, ?_⟩
  · intro c hc
    rcases List.mem_append.mp hc with hc | hc
    · rw [List.eq_of_mem_replicate hc]
      rfl
    · exact Digits.isDigit_of_mem_toDigits hc
  · rw [Digits.ofDigitChars_zeros_append, Nat.ofDigitChars_ten_toDigits]
  · rw [List.length_append, List.length_replicate]
    omega
  · intro hzero
    rw [List.length_append, List.length_replicate]
    by_cases hshort : (Nat.toDigits 10 i).length ≤ 4
    · omega
    · have hnone : 4 - (Nat.toDigits 10 i).length = 0 := by omega
      have hpos : 0 < i := Digits.pos_of_length_toDigits (by omega)
      rw [hnone, List.replicate_zero, List.nil_append] at hzero
      exact absurd hzero (Digits.head?_toDigits_ne hpos)

/-- The number can be told from the name. -/
theorem posName_injective : Function.Injective posName := by
  intro i j hij
  obtain ⟨digits, hi⟩ := posName_numbered i
  obtain ⟨digits', hj⟩ := posName_numbered j
  have hdigits := hi.toList_eq.symm.trans ((congrArg String.toList hij).trans hj.toList_eq)
  rw [List.cons.injEq, List.cons.injEq] at hdigits
  rw [← hi.value_eq, ← hj.value_eq, hdigits.2.2]

/-- Names of different numbers are different. -/
theorem nodup_posNames (count : Nat) : ((List.range count).map posName).Nodup :=
  List.nodup_range.map posName_injective

/-! ## Definitions -/

/-- The definition of the POS with number `i`. -/
structure Sampled (maxForms i : Nat) (d : PosDefinition) : Prop where
  name_eq : d.name = posName i
  bounded : Bounded maxForms d.forms

namespace Source

variable {source : Source}

/-- The definition with number `i` in the samples with this seed. -/
def definitionAt (source : Source) (seed : UInt64) (maxForms i : Nat) : PosDefinition :=
  madeAt (source.pos maxForms) (source.seeded seed) i

/-- A definition that is drawn has its numbered name and forms within the bound. -/
theorem definitionAt_sampled (sound : source.Sound) {maxForms : Nat} (h : 1 ≤ maxForms)
    (seed : UInt64) (i : Nat) : Sampled maxForms i (source.definitionAt seed maxForms i) :=
  ⟨rfl, forms_bounded sound h _⟩

/-- A sample has the definitions with the numbers below its size, in some order. -/
theorem posSet_samples (sound : source.Sound) {maxForms : Nat} (h : 1 ≤ maxForms) (seed : UInt64)
    (count : Nat) :
    ∃ set, source.posSet seed count maxForms = .ok set ∧
      set.Perm ((List.range count).map (source.definitionAt seed maxForms)) := by
  have hmade : (gather (source.pos maxForms) count (source.seeded seed)).1.toList =
      (List.range count).map (source.definitionAt seed maxForms) :=
    toList_gather (source.pos maxForms) count (source.seeded seed)
  rw [posSet, if_neg (Nat.ne_of_gt h)]
  exact ⟨_, rfl, (sound.shuffle_perm _ _).trans (.of_eq hmade)⟩

end Source

end PosDictionary.Sample
