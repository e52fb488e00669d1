import PosDictionary.Proofs.Engine.Enumeration
import PosDictionary.Proofs.Spans

/-!
# The runs of the records

The records of a dictionary are in the order of their POS, so that those of one POS form a run. The
spans of these runs lie one behind the other and leave no record out, `Span.Tile`, although each of
them is found by a search of its own. So the tokens of a stem for all POS, taken in the order in
which the POS are listed, are those of all records in their order: `exists_sharesOut`.
-/

namespace PosDictionary

open Outcome

namespace TokenArray

/-! ## Runs -/

variable {records : List TokenRecord}

/-- The run of an id that some record carries is not empty. -/
theorem start_lt_stop_runOf (sorted : records.Pairwise fun r s => r.posIndex ≤ s.posIndex)
    {id : UInt16} (carried : ∃ r ∈ records, r.posIndex = id) :
    (runOf records id).start < (runOf records id).stop := by
  obtain ⟨r, hr, hid⟩ := carried
  obtain ⟨i, hi, rfl⟩ := List.getElem_of_mem hr
  obtain ⟨hstart, hstop⟩ := (mem_runOf_iff sorted hi).mpr hid
  exact Nat.lt_of_le_of_lt hstart hstop

/-- The runs of ascending ids tile the records from the first on that carries one of them, if all
records before it carry smaller ids. -/
theorem tile_runOf (sorted : records.Pairwise fun r s => r.posIndex ≤ s.posIndex)
    {ids : List UInt16} (ascending : ids.Pairwise (· < ·))
    (carried : ∀ id ∈ ids, ∃ r ∈ records, r.posIndex = id)
    (others : ∀ r ∈ records, r.posIndex ∈ ids ∨ ∀ id ∈ ids, r.posIndex < id) :
    Span.Tile (records.countP (·.posIndex ∉ ids)) (ids.map (runOf records)) records.length := by
  induction ids with
  | nil => simp [Span.Tile]
  | cons id rest ih =>
    obtain ⟨hid, hrest⟩ := List.pairwise_cons.mp ascending
    -- What carries none of the ids is below the first, what carries none of the others not above it.
    have hbefore : ∀ r ∈ records, r.posIndex ∉ id :: rest ↔ r.posIndex < id := by
      intro r hr
      constructor
      · intro hnot
        exact (others r hr).resolve_left hnot id List.mem_cons_self
      · intro hlt hmem
        rcases List.mem_cons.mp hmem with heq | hmem
        · exact UInt16.lt_irrefl _ (heq ▸ hlt)
        · exact UInt16.lt_asymm hlt (hid _ hmem)
    have hupTo : ∀ r ∈ records, r.posIndex ∉ rest ↔ ¬ id < r.posIndex := by
      intro r hr
      constructor
      · intro hnot hlt
        have hmem := (others r hr).resolve_right fun hall =>
          UInt16.lt_asymm hlt (hall id List.mem_cons_self)
        rcases List.mem_cons.mp hmem with heq | hmem
        · exact UInt16.lt_irrefl _ (heq ▸ hlt)
        · exact hnot hmem
      · intro hnot hmem
        exact hnot (hid _ hmem)
    have hstart : (runOf records id).start = records.countP (·.posIndex ∉ id :: rest) := by
      show (records.map TokenRecord.posIndex).countP (· < id) = _
      rw [List.countP_map]
      exact List.countP_congr fun r hr => by simp [← hbefore r hr]
    have hstop : (runOf records id).stop = records.countP (·.posIndex ∉ rest) := by
      show (records.map TokenRecord.posIndex).countP (¬ id < ·) = _
      rw [List.countP_map]
      exact List.countP_congr fun r hr => by simp [hupTo r hr]
    refine ⟨hstart, start_lt_stop_runOf sorted (carried id List.mem_cons_self), ?_⟩
    rw [hstop]
    refine ih hrest (fun i hi => carried i (List.mem_cons_of_mem _ hi)) fun r hr => ?_
    by_cases hmem : r.posIndex ∈ rest
    · exact .inl hmem
    · have hle := UInt16.not_lt.mp ((hupTo r hr).mp hmem)
      exact .inr fun i hi => UInt16.lt_of_le_of_lt hle (hid i hi)

/-- The runs of all ids that records carry tile the records. -/
theorem tile_idsOf (sorted : records.Pairwise fun r s => r.posIndex ≤ s.posIndex) :
    Span.Tile 0 ((PosIndex.idsOf records).map (runOf records)) records.length := by
  have hall : ∀ r ∈ records, r.posIndex ∈ PosIndex.idsOf records := fun r hr =>
    PosIndex.mem_idsOf.mpr ⟨r, hr, rfl⟩
  have hnone : records.countP (·.posIndex ∉ PosIndex.idsOf records) = 0 := by
    rw [List.countP_eq_zero]
    intro r hr
    simp [hall r hr]
  rw [← hnone]
  exact tile_runOf sorted (PosIndex.pairwise_idsOf sorted) (fun id => PosIndex.mem_idsOf.mp)
    fun r hr => .inl (hall r hr)

/-- The records of all ids, one id after the other, are all records in their order. -/
theorem flatMap_filter_idsOf (sorted : records.Pairwise fun r s => r.posIndex ≤ s.posIndex) :
    (PosIndex.idsOf records).flatMap (fun id => records.filter (·.posIndex = id)) = records := by
  have hrun : ∀ id ∈ PosIndex.idsOf records, records.filter (·.posIndex = id) =
      (records.drop (runOf records id).start).take (runOf records id).size := fun id _ =>
    (Search.drop_take_eq_filter TokenRecord.posIndex id sorted).symm
  have htile := (tile_idsOf sorted).flatMap_eq records
  rw [List.flatMap_map, List.drop_zero, Nat.sub_zero, List.take_length] at htile
  rw [List.flatMap_congr hrun, htile]

end TokenArray

namespace Engine

/-! ## All tokens of a stem -/

/-- The token that the record at ordinal `i` makes of a stem. -/
def tokenAt (e : Engine) (key value : String) (i : Nat) : Except Failure Token := do
  let r ← Failure.ofFault (e.tokens.record i)
  let keySuffix ← e.strings.get r.keySuffixIndex.toNat
  let valueSuffix ← e.strings.get r.valueSuffixIndex.toNat
  return ⟨key ++ keySuffix, value ++ valueSuffix, r.posIndex, r.conjugationId⟩

/-- Looks up a stem for several POS, one after the other, and gathers the tokens behind `out`. -/
def gatherTokens {δ : Type} [Dictionary δ] (d : δ) (key value : String) (names : List String)
    (out : Array Token) : Traced Fault (Array Token) :=
  names.foldlM (fun out pos => do return (← Dictionary.getTokens d key value pos out).2) out

/-- A lookup of the name `s` takes the record at ordinal `i`. -/
def Reaches (e : Engine) (s : String) (i : Nat) : Prop :=
  ∃ id span, Dictionary.posId e s = .ok (some id) ∧ e.posIndex.recordRange id = .ok span ∧ i ∈ span

/-- The dictionary shares out its records among its POS: `spans` are the spans of the ids of its
POS, and `names` are their names. -/
structure SharesOut (e : Engine) (ids : DistinctIds) (spans : List Span) (names : List String) :
    Prop where
  /-- The ids are those that the records carry. -/
  distinctIds_eq : e.posIndex.distinctIds = .ok ids
  /-- Every id has its span. -/
  recordRanges_eq : ids.toList.mapM e.posIndex.recordRange = .ok spans
  /-- The names are listed. -/
  posList_eq : Dictionary.posList e = .ok names
  /-- The spans are not empty, and lie one behind the other from the first record to the last. -/
  tile : Span.Tile 0 spans e.tokens.len
  /-- Any other id has an empty span. -/
  other : ∀ id, id ∉ ids.toList → ∃ span, e.posIndex.recordRange id = .ok span ∧ span.isEmpty
  /-- The tokens for all names are one for each record, in the order of the records. -/
  gathered : ∀ key value out, ∃ tokens : List Token,
    (List.range e.tokens.len).mapM (e.tokenAt key value) = .ok tokens ∧
      (gatherTokens e key value names out).outcome = .ok (out ++ tokens)
  /-- A record is taken by the lookup of one name, which is listed, and of no other. -/
  reached : ∀ i < e.tokens.len, ∃ s ∈ names, ∀ t, e.Reaches t i ↔ t = s

variable {e : Engine} {texts : List String} {records : List TokenRecord}

/-- The record at an index gives the token that its indices name. -/
theorem tokenAt_eq (h : e.posIndex.Shows texts records) (key value : String) {i : Nat}
    (hi : i < records.length) :
    e.tokenAt key value i = .ok (tokenFrom texts key value records[i]) := by
  have hstrings : e.strings.Shows texts := h.strings
  obtain rfl : e.tokens.stored = records := h.stored_eq
  obtain ⟨-, hvalue, hkey⟩ := h.refersBelow _ (List.getElem_mem hi)
  unfold tokenAt
  rw [TokenArray.record_eq hi]
  simp only [Failure.ofFault_ok, ok_bind, hstrings.get_of_lt hvalue, hstrings.get_of_lt hkey]
  rw [tokenFrom, List.getD_eq_getElem?_getD, List.getD_eq_getElem?_getD,
    List.getElem?_eq_getElem hkey, List.getElem?_eq_getElem hvalue]
  rfl

/-- Every lookup appends its tokens to those of the lookups before it. -/
theorem outcome_gatherTokens (h : e.posIndex.Shows texts records) (key value : String)
    (names : List String) (out : Array Token) :
    (gatherTokens e key value names out).outcome =
      .ok (out ++ names.flatMap (tokensFrom texts records key value)) := by
  unfold gatherTokens
  induction names generalizing out with
  | nil => simp
  | cons pos names ih =>
    rw [List.foldlM_cons, outcome_bind, outcome_bind, outcome_getTokens h]
    simp only [ok_bind, outcome_pure, ih]
    simp [← Array.toList_inj]

/-- The tokens for all POS, in their order, are those of all records, in their order. -/
theorem flatMap_tokensFrom (h : e.posIndex.Shows texts records) (key value : String) :
    (namesOf texts records).flatMap (tokensFrom texts records key value) =
      records.map (tokenFrom texts key value) := by
  have hrun : ∀ id ∈ PosIndex.idsOf records,
      tokensFrom texts records key value (PosIndex.entryOf texts id).name =
        (records.filter (·.posIndex = id)).map (tokenFrom texts key value) := by
    intro id hid
    rw [tokensFrom, filter_posIndex_eq h (h.getElem?_of_mem_idsOf hid)]
  rw [namesOf, List.flatMap_map, List.flatMap_map, List.flatMap_congr hrun, ← List.map_flatMap,
    TokenArray.flatMap_filter_idsOf h.sorted]

/-- The records that the lookup of a name takes are those that name it as their POS. -/
theorem reaches_iff (h : e.posIndex.Shows texts records) {s : String} {i : Nat}
    (hi : i < records.length) : e.Reaches s i ↔ Names texts s records[i] := by
  constructor
  · rintro ⟨id, span, hid, hspan, hmem⟩
    obtain rfl := Except.ok.inj ((h.recordRange_eq id).symm.trans hspan)
    have hcarried : records[i].posIndex = id := (TokenArray.mem_runOf_iff h.sorted hi).mp hmem
    rw [Names, hcarried]
    exact (h.resolveId_eq_some_iff.mp hid).1
  · intro hname
    refine ⟨records[i].posIndex, _, ?_, h.recordRange_eq _,
      (TokenArray.mem_runOf_iff h.sorted hi).mpr rfl⟩
    exact h.resolveId_eq_some_iff.mpr ⟨hname, _, List.getElem_mem hi, rfl⟩

/-- The tokens for all POS are one for each record, in their order. -/
theorem exists_gathered (h : e.posIndex.Shows texts records) (key value : String)
    (out : Array Token) :
    ∃ tokens : List Token, (List.range e.tokens.len).mapM (e.tokenAt key value) = .ok tokens ∧
      (gatherTokens e key value (namesOf texts records) out).outcome = .ok (out ++ tokens) := by
  have hcount : e.tokens.len = (records.map (tokenFrom texts key value)).length := by
    rw [List.length_map, len_eq h]
  refine ⟨records.map (tokenFrom texts key value), ?_, ?_⟩
  · rw [hcount, mapM_range_eq_ok]
    intro i hi
    rw [List.getElem_map]
    exact tokenAt_eq h key value (by simpa using hi)
  · rw [outcome_gatherTokens h, flatMap_tokensFrom h]

/-- A record is taken by the lookup of the name of its POS only, and that name is listed. -/
theorem exists_reached (h : e.posIndex.Shows texts records) {i : Nat} (hi : i < records.length) :
    ∃ s ∈ namesOf texts records, ∀ t, e.Reaches t i ↔ t = s := by
  obtain ⟨s, hs⟩ := h.getElem?_posIndex (List.getElem_mem hi)
  refine ⟨s, (mem_namesOf h).mpr ⟨_, List.getElem_mem hi, hs⟩, ?_⟩
  intro t
  rw [reaches_iff h hi]
  constructor
  · intro ht
    exact Option.some_inj.mp (ht.symm.trans hs)
  · rintro rfl
    exact hs

/-- **The POS share out the records.** The spans of the ids of a dictionary, in their order, lie
one behind the other and make up the whole array, and the span of any other id is empty. So the
tokens of a stem for all POS, in the order in which they are listed, are one for each record, in
the order of the records; and every record is taken by the lookup of exactly one name. -/
theorem exists_sharesOut {tokenArray stringArray : Bytes}
    (h : (ofBytes tokenArray stringArray).outcome = .ok e) :
    ∃ ids spans names, e.SharesOut ids spans names := by
  obtain ⟨texts, records, hshows, -, -⟩ := exists_shows_of_ofBytes h
  obtain ⟨ids, hids, hlist⟩ := hshows.exists_distinctIds
  have hlen := len_eq hshows
  have hspans : ids.toList.mapM e.posIndex.recordRange =
      .ok ((PosIndex.idsOf records).map (TokenArray.runOf records)) :=
    hlist ▸ mapM_eq_ok_map fun id _ => hshows.recordRange_eq id
  refine ⟨ids, _, _, {
    distinctIds_eq := hids
    recordRanges_eq := hspans
    posList_eq := posList_eq hshows
    tile := hlen ▸ TokenArray.tile_idsOf hshows.sorted
    other := ?_
    gathered := exists_gathered hshows
    reached := fun i hi => exists_reached hshows (hlen ▸ hi) }⟩
  intro id hid
  refine ⟨_, hshows.recordRange_eq id, ?_⟩
  rw [hshows.isEmpty_recordRange_iff (hshows.recordRange_eq id)]
  intro r hr heq
  exact hid (hlist ▸ PosIndex.mem_idsOf.mpr ⟨r, hr, heq⟩)

/-- How three records are shared out. -/
theorem exists_sharesOut_threeForms :
    (ofBytes threeForms threeStrings).outcome = .ok ⟨⟨threeStrings, 3⟩, ⟨threeForms⟩⟩ ∧
      ∃ ids spans names, SharesOut ⟨⟨threeStrings, 3⟩, ⟨threeForms⟩⟩ ids spans names :=
  ⟨outcome_ofBytes_threeForms, exists_sharesOut outcome_ofBytes_threeForms⟩

end Engine

end PosDictionary
