import OxigraphCloud.Coprocessor.Regions

namespace Coprocessor

-- The pairs that a request goes through.
def matching (tablePrefix : UInt8) (keyPrefix : Bytes) (pairs : List KvPair) : List KvPair :=
  pairs.filter fun pair => (tablePrefix :: keyPrefix).isPrefixOf pair.1

variable {tablePrefix : UInt8} {keyPrefix : Bytes} {pairs : List KvPair}

theorem mem_matching :
    pair ∈ matching tablePrefix keyPrefix pairs ↔
      pair ∈ pairs ∧ tablePrefix :: keyPrefix <+: pair.1 := by
  rw [matching, List.mem_filter, List.isPrefixOf_iff_prefix]

-- An aggregation over the pairs with the prefix only goes through them.
theorem foldl_matching (f : β → Bytes → β) (b : β) :
    pairs.foldl (fun b (key, _) =>
      if (tablePrefix :: keyPrefix).isPrefixOf key then f b key else b) b =
        ((matching tablePrefix keyPrefix pairs).map Prod.fst).foldl f b := by
  rw [matching, List.foldl_map, List.foldl_filter]

theorem executeCount_count :
    (executeCount tablePrefix keyPrefix pairs).count =
      (matching tablePrefix keyPrefix pairs).length := by
  have h (keys : List Bytes) (result : CountResult) :
      (keys.foldl (fun result _ => ⟨result.count + 1, result.scannedKeys + 1⟩) result).count =
        result.count + keys.length := by
    induction keys generalizing result
    case nil => rfl
    case cons hi =>
      rw [List.foldl_cons, hi, List.length_cons]
      exact Nat.succ_add_eq_add_succ ..
  have hf : executeCount tablePrefix keyPrefix pairs = _ := foldl_matching
    (fun (result : CountResult) _ => ⟨result.count + 1, result.scannedKeys + 1⟩) ⟨0, 0⟩
  rw [hf, h]
  simp

namespace MinMaxResult

theorem less_iff (a b : Bytes) : less a b ↔ ¬b ≤ a := by simp [less]

theorem greater_iff (a b : Bytes) : greater a b ↔ ¬b ≥ a := by simp [greater]

-- The smallest and the largest of some keys.
structure Spans (result : MinMaxResult) (keys : Set Bytes) : Prop where
  minKey : IsBest (· ≤ ·) result.minKey keys
  maxKey : IsBest (· ≥ ·) result.maxKey keys

theorem foldl_add_minKey (result : MinMaxResult) (keys : List Bytes) :
    (keys.foldl add result).minKey = keys.foldl (·.pick less) result.minKey := by
  induction keys generalizing result
  case nil => rfl
  case cons hi => exact hi _

theorem foldl_add_maxKey (result : MinMaxResult) (keys : List Bytes) :
    (keys.foldl add result).maxKey = keys.foldl (·.pick greater) result.maxKey := by
  induction keys generalizing result
  case nil => rfl
  case cons hi => exact hi _

end MinMaxResult

open MinMaxResult in
theorem executeMinMax_spans :
    (executeMinMax tablePrefix keyPrefix pairs).Spans
      {key | ∃ value, (key, value) ∈ matching tablePrefix keyPrefix pairs} := by
  have hs : {key | ∃ value, (key, value) ∈ matching tablePrefix keyPrefix pairs} =
      ∅ ∪ {key | key ∈ (matching tablePrefix keyPrefix pairs).map Prod.fst} := by
    ext key
    simp
  have hf : executeMinMax tablePrefix keyPrefix pairs = _ :=
    foldl_matching MinMaxResult.add ⟨none, none, 0⟩
  rw [hf, hs]
  constructor
  · rw [foldl_add_minKey]
    exact .foldl less_iff .none_empty _
  · rw [foldl_add_maxKey]
    exact .foldl greater_iff .none_empty _

end Coprocessor
