import OxigraphCloud.Sparql.SizeEstimate

-- When the estimate of a size has a result.

namespace Sparopt

theorem saturatingPow_pos (k : ℕ) : 0 < saturatingPow 1_000 k :=
  lt_min (Nat.pow_pos (by decide)) (by decide)

theorem isSome_sub : (sub a b).isSome ↔ b ≤ a := by
  simp [sub, Option.isSome_ite]

theorem isSome_toU32 : (toU32 n).isSome ↔ n < 2 ^ 32 := by
  simp [toU32, Option.isSome_ite]

theorem isSome_hashJoinSize : (hashJoinSize l r keys).isSome ↔ keys.length < 2 ^ 32 := by
  rw [← isSome_toU32]
  unfold hashJoinSize
  cases toU32 keys.length
  case none => rfl
  case some k => simp [saturatingDiv, (saturatingPow_pos k).ne']

mutual

-- No slice has a limit below its offset and no join has more keys than a `u32` can count. The
-- right side of a difference and the patterns in expressions do not count for the size.
def GraphPattern.Estimable : GraphPattern → Prop
  | .values _ _ | .quadPattern _ _ _ _ | .path _ _ _ _ | .graph _ => True
  | .join left right keys | .leftJoin left right _ keys =>
    left.Estimable ∧ right.Estimable ∧ keys.length < 2 ^ 32
  | .lateral left right => left.Estimable ∧ right.Estimable
  | .union inner => GraphPattern.AllEstimable inner
  | .minus left _ _ => left.Estimable
  | .filter _ inner | .extend inner _ _ | .orderBy inner _ | .project inner _ | .distinct inner
  | .reduced inner | .group inner _ _ | .service _ inner _ => inner.Estimable
  | .slice inner start length => inner.Estimable ∧ ∀ n ∈ length, start ≤ n

def GraphPattern.AllEstimable : List GraphPattern → Prop
  | [] => True
  | p :: ps => p.Estimable ∧ GraphPattern.AllEstimable ps

end

theorem isSome_bind_iff {x : Option α} {f : α → Option β} {p : Prop}
    (h : ∀ a, (f a).isSome ↔ p) : (x >>= f).isSome ↔ x.isSome ∧ p := by
  cases x
  case none => simp
  case some a => simp [h]

theorem isSome_bind_pure {x : Option α} {f : α → β} :
    (x >>= fun a => pure (f a)).isSome ↔ x.isSome := by
  cases x <;> simp

open GraphPattern

mutual

-- The types only have a say in how large the estimate is.
theorem isSome_estimateGraphPatternSize (p : GraphPattern) (types : VariableTypes) :
    (estimateGraphPatternSize p types).isSome ↔ p.Estimable := by
  cases p
  case values | quadPattern | path | graph => simp [estimateGraphPatternSize, Estimable]
  case join left right keys =>
    rw [estimateGraphPatternSize, Estimable, ← isSome_estimateGraphPatternSize left types,
      ← isSome_estimateGraphPatternSize right types]
    exact isSome_bind_iff fun _ => isSome_bind_iff fun _ => isSome_hashJoinSize
  case leftJoin left right expression keys =>
    rw [estimateGraphPatternSize, Estimable, ← isSome_estimateGraphPatternSize left types,
      ← isSome_estimateGraphPatternSize right (inferGraphPatternTypes right types)]
    refine isSome_bind_iff fun _ => isSome_bind_iff fun _ => ?_
    exact isSome_bind_pure.trans isSome_hashJoinSize
  case lateral left right =>
    rw [estimateGraphPatternSize, Estimable, ← isSome_estimateGraphPatternSize left types,
      ← isSome_estimateGraphPatternSize right (inferGraphPatternTypes left types)]
    exact isSome_bind_iff fun _ => isSome_bind_pure
  case union inner =>
    rw [estimateGraphPatternSize, Estimable, ← isSome_estimateUnionSizes inner types]
    exact isSome_bind_pure
  case slice inner start length =>
    rw [estimateGraphPatternSize, Estimable, ← isSome_estimateGraphPatternSize inner types]
    refine isSome_bind_iff fun _ => ?_
    cases length
    case none => simp
    case some length =>
      rw [isSome_bind_pure, isSome_sub]
      simp
  case minus left _ _ => exact isSome_estimateGraphPatternSize left types
  case filter _ inner => exact isSome_estimateGraphPatternSize inner types
  case extend inner _ _ => exact isSome_estimateGraphPatternSize inner types
  case orderBy inner _ => exact isSome_estimateGraphPatternSize inner types
  case project inner _ => exact isSome_estimateGraphPatternSize inner types
  case distinct inner => exact isSome_estimateGraphPatternSize inner types
  case reduced inner => exact isSome_estimateGraphPatternSize inner types
  case group inner _ _ => exact isSome_estimateGraphPatternSize inner types
  case service _ inner _ => exact isSome_estimateGraphPatternSize inner types

theorem isSome_estimateUnionSizes (ps : List GraphPattern) (types : VariableTypes) :
    (estimateUnionSizes ps types).isSome ↔ AllEstimable ps := by
  cases ps
  case nil => simp [estimateUnionSizes, AllEstimable]
  case cons p ps =>
    rw [estimateUnionSizes, AllEstimable, ← isSome_estimateGraphPatternSize p types,
      ← isSome_estimateUnionSizes ps types]
    exact isSome_bind_iff fun _ => isSome_bind_pure

end

-- All the estimates that the ordering of joins asks for stay within the machine integers exactly if
-- the patterns are estimable, whatever is known about the input.
theorem estimates_iff (left right : GraphPattern) (keys : List Variable)
    (types leftTypes : VariableTypes) :
    ((estimateGraphPatternSize left types).isSome ↔ left.Estimable) ∧
      ((estimateJoinCost left right keys types).isSome ↔
        left.Estimable ∧ right.Estimable ∧ keys.length < 2 ^ 32) ∧
      ((estimateLateralCost left leftTypes right types).isSome ↔
        left.Estimable ∧ right.Estimable) := by
  refine ⟨isSome_estimateGraphPatternSize left types, ?_, ?_⟩
  case refine_1 =>
    rw [← isSome_estimateGraphPatternSize left types,
      ← isSome_estimateGraphPatternSize right types]
    exact isSome_bind_iff fun _ => isSome_bind_iff fun _ => isSome_hashJoinSize
  case refine_2 =>
    rw [← isSome_estimateGraphPatternSize left types,
      ← isSome_estimateGraphPatternSize right leftTypes]
    exact isSome_bind_iff fun _ => isSome_bind_pure

-- `{ SELECT * { VALUES () { () } } OFFSET 2 LIMIT 1 }`
theorem not_isSome_estimate_slice :
    ¬(estimateGraphPatternSize (.slice .emptySingleton 2 (some 1)) ∅).isSome := by
  decide

end Sparopt
