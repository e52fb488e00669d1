import PosDictionary.Proofs.Definition.Capacity
import PosDictionary.Proofs.Engine.RoundTrip
import PosDictionary.Proofs.Sample.Generator

/-!
# Samples as dictionaries

A sample with few enough names is written and opened as a dictionary. Its suffixes take up at most
1191 of the strings that the indices of a record can tell apart, `suffixes`, however many forms
there are; so 64345 names are few enough, `Source.posSet_loads`. That holds of the samples of every
sound source.
-/

namespace PosDictionary.Sample

open Builder StringTable.Layout

/-! ## All suffixes -/

/-- The suffixes that there are: those of no, one and two characters. -/
def suffixes : List String :=
  ([[]] ++ kana.toList.map (fun c => [c]) ++
    kana.toList.flatMap fun c => kana.toList.map fun d => [c, d]).map String.ofList

/-- As many suffixes can be drawn. -/
theorem length_suffixes : suffixes.length = 1191 := by
  have hkana : kana.toList.length = 34 := rfl
  simp [suffixes, List.length_flatMap, hkana]

/-- Every suffix is one of those that can be drawn. -/
theorem mem_suffixes {s : String} (h : IsSuffix s) : s ∈ suffixes := by
  obtain ⟨hlen, hkana⟩ := h
  refine List.mem_map.mpr ⟨s.toList, ?_, String.ofList_toList⟩
  match s.toList, hlen, hkana with
  | [], _, _ => simp
  | [c], _, hkana =>
    have hc := hkana c (by simp)
    simp [hc]
  | [c, d], _, hkana =>
    have hc := hkana c (by simp)
    have hd := hkana d (by simp)
    simp [hc, hd]

/-! ## The strings of a sample -/

/-- The names of the first 100000 POS have at most seven characters. -/
theorem utf8ByteSize_posName_le {i : Nat} (hi : i < 100000) : (posName i).utf8ByteSize ≤ 28 := by
  have hdigits : (Nat.toDigits 10 i).length ≤ 5 :=
    (Nat.length_toDigits_le_iff (by decide) (by decide)).mpr hi
  have hsize := Text.utf8ByteSize_le (posName i)
  rw [posName_toList, List.length_cons, List.length_cons, List.length_append,
    List.length_replicate] at hsize
  omega

namespace Source

section Samples

variable {source : Source} {maxForms count : Nat} {seed : UInt64} {set : List PosDefinition}
  (sound : source.Sound) (h : 1 ≤ maxForms)
  (hset : set.Perm ((List.range count).map (source.definitionAt seed maxForms)))

include sound h hset

/-- A sample uses its names and suffixes. -/
theorem mem_strings_of_sample {d : PosDefinition} (hd : d ∈ set) {s : String}
    (hs : s ∈ d.strings) : s ∈ (List.range count).map posName ∨ IsSuffix s := by
  obtain ⟨i, hi, rfl⟩ := List.mem_map.mp (hset.mem_iff.mp hd)
  have hsampled := definitionAt_sampled sound h seed i
  rw [PosDefinition.strings, List.mem_cons, List.mem_flatMap, hsampled.name_eq] at hs
  rcases hs with rfl | ⟨f, hf, hs⟩
  · exact .inl (List.mem_map_of_mem hi)
  · right
    rcases List.mem_pair.mp hs with rfl | rfl
    · exact (hsampled.bounded.suffixed f hf).key
    · exact (hsampled.bounded.suffixed f hf).value

/-- A sample uses its names and suffixes, no more. -/
theorem length_used_le : (used set).length ≤ count + 1191 := by
  have hsub : used set ⊆ (List.range count).map posName ++ suffixes := by
    intro s hs
    obtain ⟨d, hd, hs⟩ := List.mem_flatMap.mp (List.mem_dedup.mp hs)
    rw [List.mem_append]
    exact (mem_strings_of_sample sound h hset hd hs).imp_right mem_suffixes
  have hle := (List.subperm_of_subset (List.nodup_dedup _) hsub).length_le
  rwa [List.length_append, List.length_map, List.length_range, length_suffixes] at hle

/-- The strings of a sample fit a table. -/
theorem storedSize_used_le (few : count ≤ 64345) :
    storedSize (used set) ≤ StringTable.maxSize := by
  have hshort : ∀ s ∈ used set, s.utf8ByteSize ≤ 28 := by
    intro s hs
    obtain ⟨d, hd, hs⟩ := List.mem_flatMap.mp (List.mem_dedup.mp hs)
    rcases mem_strings_of_sample sound h hset hd hs with hname | hsuffix
    · obtain ⟨i, hi, rfl⟩ := List.mem_map.mp hname
      rw [List.mem_range] at hi
      exact utf8ByteSize_posName_le (by omega)
    · have hsize := Text.utf8ByteSize_le s
      have hlen := hsuffix.length_le
      omega
  have hsize := storedSize_le hshort
  have hlen := length_used_le sound h hset
  have hmax : StringTable.maxSize = 4294967295 := rfl
  omega

/-! ## Opening a sample -/

/-- The names of a sample are the numbered ones, in some order. -/
theorem map_name_sample :
    (set.map PosDefinition.name).Perm ((List.range count).map posName) := by
  refine (hset.map PosDefinition.name).trans (.of_eq ?_)
  rw [List.map_map]
  exact List.map_congr_left fun i _ => (definitionAt_sampled sound h seed i).name_eq

/-- A builder takes a sample. -/
theorem exists_ofDefinitions_sample : ∃ b, ofDefinitions set = .ok b := by
  rw [exists_ofDefinitions_iff, (map_name_sample sound h hset).nodup_iff]
  refine ⟨nodup_posNames count, fun d hd => ?_⟩
  obtain ⟨i, -, rfl⟩ := List.mem_map.mp (hset.mem_iff.mp hd)
  exact List.ne_nil_of_length_pos (definitionAt_sampled sound h seed i).bounded.one_le

end Samples

/-- **Samples load.** Whatever sound source they are made from, the samples with a seed have
definitions with numbers: the sample of a size has those with the numbers below it, in some order,
so that each is the same in every sample that is large enough. The names are different and end in
the number, which is padded with zeros to four digits; there are from one to `maxForms` forms, and
suffixes of up to two kana. A builder takes a sample of up to 64345 definitions as it is and writes
it, and what is written is opened as a dictionary, which lists the names in ascending byte order. -/
theorem posSet_loads (source : Source) (sound : source.Sound) {maxForms : Nat} (h : 1 ≤ maxForms)
    (seed : UInt64) :
    (∀ i, ∃ digits, Numbered i (posName i) digits) ∧ Function.Injective posName ∧
    (∀ i, Sampled maxForms i (source.definitionAt seed maxForms i)) ∧
    ∀ count, ∃ set, source.posSet seed count maxForms = .ok set ∧ set.length = count ∧
      set.Perm ((List.range count).map (source.definitionAt seed maxForms)) ∧
      (count ≤ 64345 → ∃ b data e names, ofDefinitions set = .ok b ∧
        b.finish.outcome = .ok data ∧
        (Engine.ofBytes data.tokenArray data.stringArray).outcome = .ok e ∧
        Dictionary.posList e = .ok names ∧ names.Perm ((List.range count).map posName) ∧
        names.Pairwise Text.Before) := by
  refine ⟨posName_numbered, posName_injective, definitionAt_sampled sound h seed, fun count => ?_⟩
  obtain ⟨set, hmade, hset⟩ := posSet_samples sound h seed count
  refine ⟨set, hmade, ?_, hset, fun few => ?_⟩
  · rw [hset.length_eq, List.length_map, List.length_range]
  · obtain ⟨b, hb⟩ := exists_ofDefinitions_sample sound h hset
    have holds := holds_of_ofDefinitions hb
    have hused : b.texts.length ≤ maxStrings := by
      have hmax : maxStrings = 65536 := rfl
      have hlen := length_used_le sound h hset
      rw [length_texts holds]
      omega
    have hfits : (written b.texts).length ≤ StringTable.maxSize := by
      rw [length_written_texts holds]
      exact storedSize_used_le sound h hset few
    obtain ⟨data, hdata⟩ := exists_finish holds hused hfits
    obtain ⟨e, he, hshows⟩ := Engine.exists_shows_of_finish holds hdata
    obtain ⟨names, hnames, hperm, hascending⟩ := Engine.exists_posList holds hused hshows
    exact ⟨b, data, e, names, hb, hdata, he, hnames, hperm.trans (map_name_sample sound h hset),
      hascending⟩

/-- A sample of twenty definitions with up to five forms, made from the numbers of `Random`. -/
theorem posSet_loads_twenty :
    Random.source.Sound ∧ ∃ set b data e names, Sample.posSet 42 20 5 = .ok set ∧
      set.length = 20 ∧ ofDefinitions set = .ok b ∧ b.finish.outcome = .ok data ∧
      (Engine.ofBytes data.tokenArray data.stringArray).outcome = .ok e ∧
      Dictionary.posList e = .ok names ∧ names.Perm ((List.range 20).map posName) := by
  obtain ⟨-, -, -, hsamples⟩ :=
    posSet_loads Random.source Random.sound_source (Nat.succ_pos 4) 42
  obtain ⟨set, hset, hlen, -, hloads⟩ := hsamples 20
  obtain ⟨b, data, e, names, hb, hdata, he, hnames, hperm, -⟩ := hloads (by omega)
  exact ⟨Random.sound_source, set, b, data, e, names, hset, hlen, hb, hdata, he, hnames, hperm⟩

end Source

end PosDictionary.Sample
