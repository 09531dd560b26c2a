import Mathlib

-- Truncating division, as machine integers have it, and the truncation of rational numbers.

namespace Int

theorem tdiv_tdiv (a b c : ℤ) : (a.tdiv b).tdiv c = a.tdiv (b * c) := by
  obtain ⟨a, rfl | rfl⟩ := a.eq_nat_or_neg
    <;> obtain ⟨b, rfl | rfl⟩ := b.eq_nat_or_neg
    <;> obtain ⟨c, rfl | rfl⟩ := c.eq_nat_or_neg
    <;> simp only [Int.neg_tdiv, Int.tdiv_neg, neg_mul, mul_neg, neg_neg, ← natCast_mul,
      ← ofNat_tdiv, Nat.div_div_eq_div_mul]

theorem tdiv_of_nonpos {a b : ℤ} (h : a ≤ 0) : a.tdiv b = -(-a / b) := by
  rw [← tdiv_eq_ediv_of_nonneg (by omega), Int.neg_tdiv, neg_neg]

theorem tmod_of_nonpos {a b : ℤ} (h : a ≤ 0) : a.tmod b = -(-a % b) := by
  rw [← tmod_eq_emod_of_nonneg (by omega), Int.neg_tmod, neg_neg]

theorem tdiv_eq_zero_of_natAbs_lt {a b : ℤ} (h : a.natAbs < b.natAbs) : a.tdiv b = 0 := by
  rw [← natAbs_eq_zero, natAbs_tdiv]
  exact Nat.div_eq_of_lt h

-- Only the smallest number divided by -1 is too large.
theorem tdiv_mem_iff {a b : ℤ} {w : ℕ} (ha : -2 ^ w ≤ a ∧ a < 2 ^ w) (hb : b ≠ 0) :
    (-2 ^ w ≤ a.tdiv b ∧ a.tdiv b < 2 ^ w) ↔ ¬(a = -2 ^ w ∧ b = -1) := by
  have hp : (0 : ℤ) < 2 ^ w := by positivity
  generalize (2 : ℤ) ^ w = m at *
  rcases (by omega : b = 1 ∨ b = -1 ∨ 2 ≤ b.natAbs) with rfl | rfl | hb
  · simpa using ha
  · rw [Int.tdiv_neg, Int.tdiv_one]
    omega
  · have h : (a.tdiv b).natAbs ≤ a.natAbs / 2 := by
      rw [natAbs_tdiv]
      exact Nat.div_le_div_left hb (by decide)
    have : b ≠ -1 := by rintro rfl; contradiction
    omega

end Int

namespace Rat

-- The whole part of a number.
def truncate (q : ℚ) : ℤ := if 0 ≤ q then ⌊q⌋ else ⌈q⌉

theorem truncate_neg (q : ℚ) : truncate (-q) = -truncate q := by
  unfold truncate
  rcases lt_trichotomy q 0 with h | rfl | h
  · rw [if_pos (by linarith), if_neg (by linarith), Int.floor_neg]
  · simp
  · rw [if_neg (by linarith), if_pos h.le, Int.ceil_neg]

theorem truncate_natCast_div (a b : ℕ) : truncate (a / b) = (a / b : ℕ) := by
  rw [truncate, if_pos (by positivity)]
  exact Rat.floor_intCast_div_natCast a b

theorem truncate_div (a b : ℤ) : truncate (a / b) = a.tdiv b := by
  obtain ⟨a, rfl | rfl⟩ := a.eq_nat_or_neg <;> obtain ⟨b, rfl | rfl⟩ := b.eq_nat_or_neg
    <;> simp only [Int.cast_neg, Int.cast_natCast, neg_div, div_neg, truncate_neg, neg_neg,
      truncate_natCast_div, Int.neg_tdiv, Int.tdiv_neg, Int.ofNat_tdiv]

end Rat
