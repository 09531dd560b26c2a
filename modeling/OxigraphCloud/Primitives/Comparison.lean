import Mathlib

-- Comparisons that need not be transitive. Nothing in here is specific to RDF storage.

-- The comparison is transitive for three elements.
def TransAt (cmp : α → α → Ordering) (a b c : α) : Prop :=
  (cmp a b).isLE → (cmp b c).isLE → cmp a c ≠ .gt

theorem Option.eq_map_swap {x y : Option Ordering} (h : ∀ o, y = some o ↔ x = some o.swap) :
    y = x.map .swap := by
  ext o
  rw [h, Option.map_eq_some_iff]
  constructor
  · exact fun h => ⟨_, h, Ordering.swap_swap⟩
  · rintro ⟨o, h, rfl⟩
    rwa [Ordering.swap_swap]

theorem Int.compare_eq_iff_swap {x y : ℤ} : compare y x = o ↔ compare x y = o.swap := by
  have h : compare x y = (compare y x).swap := Std.OrientedCmp.eq_swap
  rw [h, Ordering.swap_inj]

theorem Int.compare_congr {x y x' y' : ℤ} (hlt : x < y → x' < y') (heq : x = y → x' = y')
    (hgt : y < x → y' < x') : compare x' y' = compare x y := by
  rcases lt_trichotomy x y with h | h | h
  · rw [compare_lt_iff_lt.mpr h, compare_lt_iff_lt.mpr (hlt h)]
  · rw [compare_eq_iff_eq.mpr h, compare_eq_iff_eq.mpr (heq h)]
  · rw [compare_gt_iff_gt.mpr h, compare_gt_iff_gt.mpr (hgt h)]

namespace TransAt

open Std

variable {cmp : α → α → Ordering} {cmp₁ : β → β → Ordering} {cmp₂ : γ → γ → Ordering}

theorem of_transCmp [TransCmp cmp] (a b c : α) : TransAt cmp a b c := by
  intro hab hbc
  exact Ordering.isLE_iff_ne_gt.mp <| TransCmp.isLE_trans hab hbc

-- A comparison of two parts. The second ones only count for elements with equal first ones.
theorem not_iff_of_then [TransCmp cmp₁] (hab : cmp a b = (cmp₁ a₁ b₁).then (cmp₂ a₂ b₂))
    (hbc : cmp b c = (cmp₁ b₁ c₁).then (cmp₂ b₂ c₂))
    (hac : cmp a c = (cmp₁ a₁ c₁).then (cmp₂ a₂ c₂)) :
    ¬TransAt cmp a b c ↔ cmp₁ a₁ b₁ = .eq ∧ cmp₁ b₁ c₁ = .eq ∧ ¬TransAt cmp₂ a₂ b₂ c₂ := by
  unfold TransAt
  rw [hab, hbc, hac]
  rcases h : cmp₁ a₁ b₁ <;> rcases h' : cmp₁ b₁ c₁
  case eq.eq => simp [TransCmp.eq_trans h h']
  case lt.lt => simp [TransCmp.lt_trans h h']
  case lt.eq => simp [TransCmp.lt_of_lt_of_eq h h']
  case eq.lt => simp [TransCmp.lt_of_eq_of_lt h h']
  all_goals simp

end TransAt
