import OxigraphCloud.Primitives.FixedPoint
import OxigraphCloud.Datatypes.Theorems.Numeric

-- The operations on decimals and the rational numbers that decimals stand for.
namespace Datatypes.Decimal

variable {a b d value : ℤ}

-- The number that a decimal stands for.
def toRat (value : ℤ) : ℚ := value / decimalPartPow

def Representable (q : ℚ) : Prop := ∃ d : BitVec 128, toRat d.toInt = q

-- What an operation whose exact outcome is known returns.
def IsResult (q : ℚ) : Option ℤ → Prop
  | some d => checked d = some d ∧ toRat d = q
  | none   => ¬Representable q

-- What an operation returns if its exact outcome is a decimal.
def Returns (q : ℚ) (result : Option ℤ) : Prop :=
  ∀ d : BitVec 128, toRat d.toInt = q → result = some d.toInt

theorem decimalPartPow_cast_ne_zero : ((decimalPartPow : ℤ) : ℚ) ≠ 0 := by
  unfold decimalPartPow
  norm_num

theorem toRat_inj : toRat a = toRat b ↔ a = b := by
  rw [toRat, toRat, div_left_inj' decimalPartPow_cast_ne_zero, Int.cast_inj]

theorem toRat_mul_decimalPartPow (value : ℤ) : toRat (value * decimalPartPow) = value := by
  rw [toRat, Int.cast_mul, mul_div_cancel_right₀ _ decimalPartPow_cast_ne_zero]

theorem checked_toInt (d : BitVec 128) : checked d.toInt = some d.toInt := Int.checked_toInt d

theorem mem_of_checked (h : checked a = some b) : -2 ^ 127 ≤ b ∧ b < 2 ^ 127 := by
  simpa using (Int.checked_eq_some_iff.mp h).2

theorem representable_toRat_iff : Representable (toRat d) ↔ checked d = some d where
  mp := fun ⟨e, he⟩ => toRat_inj.mp he ▸ checked_toInt e
  mpr h := ⟨.ofInt 128 d, by rw [Int.toInt_ofInt_of_checked (by decide) h]⟩

theorem isResult_checked (d : ℤ) : IsResult (toRat d) (checked d) := by
  cases h : checked d
  case none =>
    rw [IsResult, representable_toRat_iff, h]
    simp
  case some =>
    obtain ⟨rfl, -⟩ := Int.checked_eq_some_iff.mp h
    exact ⟨h, rfl⟩

theorem returns_checked_iff :
    Returns (toRat d) result ↔ (checked d = some d → result = some d) where
  mp h hc := by
    have he := Int.toInt_ofInt_of_checked (by decide) hc
    rw [h (.ofInt 128 d) (by rw [he]), he]
  mpr h e he := by
    rw [toRat_inj] at he
    subst he
    exact h (checked_toInt e)

section Multiplication

-- The zeros at the end of a number. Zero itself is taken to have none.
def HasZeros (value : ℤ) (k : ℕ) : Prop := 10 ^ k ∣ value ∧ (value = 0 → k = 0)

theorem shiftRight_zero (fuel : ℕ) : shiftRight 0 fuel = (0, 0) := by
  cases fuel <;> simp [shiftRight]

theorem lt_of_pow_dvd (hv : value ≠ 0) (hc : checked value = some value) (h : 10 ^ k ∣ value) :
    k < 39 := by
  have hm := mem_of_checked hc
  have hl := Int.le_of_dvd (abs_pos.mpr hv) ((dvd_abs _ _).mpr h)
  by_contra hk
  have : (10 : ℤ) ^ 39 ≤ 10 ^ k := pow_le_pow_right₀ (by decide) (by omega)
  have : |value| ≤ 2 ^ 127 := abs_le.mpr ⟨hm.1, hm.2.le⟩
  omega

theorem hasZeros_iff (hc : checked value = some value) :
    HasZeros value k ↔ k ≤ (shiftRight value 39).2 := by
  by_cases hv : value = 0
  case pos => simp [hv, HasZeros, shiftRight_zero]
  case neg =>
    simp only [HasZeros, hv, false_implies, and_true]
    constructor
    case mp => exact fun h => le_shiftRight hv h (lt_of_pow_dvd hv hc h).le
    case mpr =>
      intro h
      have hd := Dvd.intro_left _ (shiftRight_mul_pow value 39)
      exact dvd_trans (pow_dvd_pow 10 h) hd

theorem shiftRight_lt (hc : checked value = some value) : (shiftRight value 39).2 < 39 := by
  by_cases hv : value = 0
  case pos => simp [hv, shiftRight_zero]
  case neg => exact lt_of_pow_dvd hv hc (hasZeros_iff hc |>.mpr le_rfl).1

theorem exists_add_eq_iff {p q n : ℕ} : (∃ i j, i + j = n ∧ i ≤ p ∧ j ≤ q) ↔ n ≤ p + q where
  mp := by
    rintro ⟨i, j, rfl, hi, hj⟩
    exact Nat.add_le_add hi hj
  mpr h := ⟨min n p, n - min n p, by omega, by omega, by omega⟩

theorem exists_hasZeros_iff (ha : checked a = some a) (hb : checked b = some b) :
    (∃ i j, i + j = n ∧ HasZeros a i ∧ HasZeros b j) ↔
      n ≤ (shiftRight a 39).2 + (shiftRight b 39).2 := by
  simp only [hasZeros_iff ha, hasZeros_iff hb, exists_add_eq_iff]

theorem checked_of_checked_mul_pow (h : checked (x * 10 ^ k) = some (x * 10 ^ k)) :
    checked x = some x := by
  have hp : (1 : ℤ) ≤ 10 ^ k := one_le_pow₀ (by decide)
  refine Int.checked_of_between (y := x * 10 ^ k) ?_ ?_ (by rw [checked] at h; simp [h])
  · rcases le_total 0 x with h₀ | h₀
    · exact le_trans (min_le_left _ _) h₀
    · exact le_trans (min_le_right _ _) (by nlinarith)
  · rcases le_total 0 x with h₀ | h₀
    · exact le_trans (by nlinarith) (le_max_right _ _)
    · exact le_trans h₀ (le_max_left _ _)

theorem checked_pow (h : k < 39) : checked (10 ^ k) = some (10 ^ k) := by
  apply checked_of_abs_lt
  have : (10 : ℤ) ^ k ≤ 10 ^ 38 := pow_le_pow_right₀ (by decide) (by omega)
  rw [abs_of_pos (by positivity)]
  omega

theorem checked_pow_of_checked_mul_pow (hn : x = 0 → k < 39)
    (h : checked (x * 10 ^ k) = some (x * 10 ^ k)) : checked (10 ^ k) = some (10 ^ k) := by
  rcases k with _ | k
  case zero => exact checked_pow (by decide)
  case succ =>
    by_cases hx : x = 0
    case pos => exact checked_pow (hn hx)
    case neg =>
      -- The smallest number of 128 bits is not a multiple of ten.
      have hm := mem_of_checked h
      have hz : x * 10 ^ (k + 1) = 10 * (x * 10 ^ k) := by ring
      have hl : |x * 10 ^ (k + 1)| < 2 ^ 127 := abs_lt.mpr (by omega)
      rw [abs_mul, abs_of_pos (by positivity : (0 : ℤ) < 10 ^ (k + 1))] at hl
      apply checked_of_abs_lt
      rw [abs_of_pos (by positivity)]
      exact lt_of_le_of_lt (le_mul_of_one_le_left (by positivity) (Int.one_le_abs hx)) hl

-- The checks on the way to a product pass if the product fits.
theorem checked_bind_pow (hn : x = 0 → k < 39) :
    ((checked x).bind fun x => (checked (10 ^ k)).bind fun p => checked (x * p)) =
      checked (x * 10 ^ k) := by
  cases h : checked (x * 10 ^ k)
  case none =>
    cases hx : checked x <;> cases hk : checked (10 ^ k)
    case some.some =>
      obtain ⟨rfl, -⟩ := Int.checked_eq_some_iff.mp hx
      obtain ⟨rfl, -⟩ := Int.checked_eq_some_iff.mp hk
      simpa using h
    all_goals rfl
  case some y =>
    obtain ⟨rfl, -⟩ := Int.checked_eq_some_iff.mp h
    simp only [checked_of_checked_mul_pow h, checked_pow_of_checked_mul_pow hn h, Option.bind_some,
      h]

theorem checkedMul_eq_checked (ha : checked a = some a) (hb : checked b = some b)
    (h : 18 ≤ (shiftRight a 39).2 + (shiftRight b 39).2) :
    ∃ d, d * decimalPartPow = a * b ∧ checkedMul a b = checked d := by
  have hla := shiftRight_mul_pow a 39
  have hlb := shiftRight_mul_pow b 39
  have hsa := shiftRight_lt ha
  have hsb := shiftRight_lt hb
  have hza : a = 0 → (shiftRight a 39).2 = 0 := fun h => by rw [h, shiftRight_zero]
  have hzb : b = 0 → (shiftRight b 39).2 = 0 := fun h => by rw [h, shiftRight_zero]
  unfold checkedMul decimalPartDigits
  generalize shiftRight a 39 = l at h hla hza hsa
  generalize shiftRight b 39 = r at h hlb hzb hsb
  obtain ⟨l, p⟩ := l
  obtain ⟨r, q⟩ := r
  simp only at h hla hlb hza hzb hsa hsb ⊢
  refine ⟨l * r * 10 ^ (p + q - 18), ?_, ?_⟩
  case refine_1 =>
    calc l * r * 10 ^ (p + q - 18) * decimalPartPow
      _ = l * r * 10 ^ (p + q) := by
        rw [decimalPartPow, mul_assoc, ← pow_add, Nat.sub_add_cancel h]
      _ = a * b := by
        rw [← hla, ← hlb]
        ring
  case refine_2 =>
    rw [if_neg (by omega)]
    refine checked_bind_pow fun h₀ => ?_
    rcases mul_eq_zero.mp h₀ with rfl | rfl
    · have := hza (by simpa using hla.symm)
      omega
    · have := hzb (by simpa using hlb.symm)
      omega

theorem toRat_mul (h : d * decimalPartPow = a * b) : toRat d = toRat a * toRat b := by
  have h : (d * decimalPartPow : ℚ) = a * b := by exact_mod_cast h
  rw [toRat, toRat, toRat, div_mul_div_comm, ← h,
    mul_div_mul_right _ _ decimalPartPow_cast_ne_zero]

-- The exact product is found iff the two factors have 18 zeros at their ends.
theorem checkedMul_iff (a b : BitVec 128) :
    IsResult (toRat a.toInt * toRat b.toInt) (checkedMul a.toInt b.toInt) ↔
      (Representable (toRat a.toInt * toRat b.toInt) →
        ∃ i j, i + j = 18 ∧ HasZeros a.toInt i ∧ HasZeros b.toInt j) := by
  rw [exists_hasZeros_iff (checked_toInt a) (checked_toInt b)]
  by_cases h : 18 ≤ (shiftRight a.toInt 39).2 + (shiftRight b.toInt 39).2
  case pos =>
    have ⟨d, hd, hm⟩ := checkedMul_eq_checked (checked_toInt a) (checked_toInt b) h
    rw [hm, ← toRat_mul hd]
    exact iff_of_true (isResult_checked d) fun _ => h
  case neg =>
    have hn : checkedMul a.toInt b.toInt = none := by
      unfold checkedMul
      exact if_pos (not_le.mp h)
    rw [hn, IsResult, imp_iff_not h]

-- The smallest positive decimal as the product of two other decimals.
theorem not_isResult_checkedMul :
    ¬IsResult (toRat (2000000000 : BitVec 128).toInt * toRat (500000000 : BitVec 128).toInt)
      (checkedMul (2000000000 : BitVec 128).toInt (500000000 : BitVec 128).toInt) := by
  have hn : checkedMul (2000000000 : BitVec 128).toInt (500000000 : BitVec 128).toInt = none := by
    decide
  rw [hn, IsResult, not_not]
  exact ⟨1, toRat_mul (by decide)⟩

end Multiplication

section Division

-- The number without what is smaller than the last digit of a decimal.
def truncated (q : ℚ) : ℚ := toRat (Rat.truncate (q * decimalPartPow))

-- How often a number can be multiplied by ten. For zero this is not tried.
def HasRoom (value : ℤ) (k : ℕ) : Prop :=
  checked (value * 10 ^ k) = some (value * 10 ^ k) ∧ (value = 0 → k = 0)

theorem truncated_toRat_div (a b : ℤ) :
    truncated (toRat a / toRat b) = toRat ((a * decimalPartPow).tdiv b) := by
  have h : toRat a / toRat b * decimalPartPow = (a * decimalPartPow : ℤ) / b := by
    rw [toRat, toRat, div_div_div_cancel_right₀ decimalPartPow_cast_ne_zero]
    push_cast
    ring
  rw [truncated, h, Rat.truncate_div]

theorem shiftLeft_zero (fuel : ℕ) : shiftLeft 0 fuel = (0, 0) := by
  cases fuel <;> simp [shiftLeft]

theorem shiftLeft_eq (value : ℤ) (fuel : ℕ) :
    (shiftLeft value fuel).1 = value * 10 ^ (shiftLeft value fuel).2 := by
  induction fuel generalizing value with
  | zero => simp [shiftLeft]
  | succ fuel ih =>
    unfold shiftLeft
    split
    case isTrue h =>
      simp only [ih, pow_succ]
      ring
    case isFalse => simp

theorem checked_shiftLeft (hc : checked value = some value) (fuel : ℕ) :
    checked (shiftLeft value fuel).1 = some (shiftLeft value fuel).1 := by
  induction fuel generalizing value with
  | zero => exact hc
  | succ fuel ih =>
    unfold shiftLeft
    split
    case isTrue h => exact ih h.2
    case isFalse => exact hc

-- The number is multiplied as often as it has room.
theorem le_shiftLeft (hv : value ≠ 0) (hr : checked (value * 10 ^ k) = some (value * 10 ^ k))
    (hk : k ≤ fuel) : k ≤ (shiftLeft value fuel).2 := by
  induction fuel generalizing value k with
  | zero => exact hk
  | succ fuel ih =>
    rcases k with _ | k
    case zero => exact Nat.zero_le _
    case succ =>
      have hp : value * 10 ^ (k + 1) = value * 10 * 10 ^ k := by ring
      rw [hp] at hr
      have h₁ : checked (value * 10) = some (value * 10) := checked_of_checked_mul_pow hr
      unfold shiftLeft
      rw [if_pos ⟨hv, h₁⟩]
      exact Nat.succ_le_succ <| ih (mul_ne_zero hv (by decide)) hr (by omega)

theorem lt_of_checked_mul_pow (hv : value ≠ 0)
    (h : checked (value * 10 ^ k) = some (value * 10 ^ k)) : k < 39 := by
  by_contra hk
  have hn : value * 10 ^ k ≠ 0 := mul_ne_zero hv (by positivity)
  exact lt_irrefl k <| (lt_of_pow_dvd hn h (Dvd.intro_left _ rfl)).trans_le (not_lt.mp hk)

theorem hasRoom_iff (hc : checked value = some value) :
    HasRoom value k ↔ k ≤ (shiftLeft value 39).2 := by
  by_cases hv : value = 0
  case pos => simp [hv, HasRoom, shiftLeft_zero, checked]
  case neg =>
    simp only [HasRoom, hv, false_implies, and_true]
    constructor
    case mp => exact fun h => le_shiftLeft hv h (lt_of_checked_mul_pow hv h).le
    case mpr =>
      intro h
      have hs := checked_shiftLeft hc 39
      rw [shiftLeft_eq, ← Nat.sub_add_cancel h, Nat.add_comm, pow_add, ← mul_assoc] at hs
      exact checked_of_checked_mul_pow hs

theorem exists_hasRoom_iff (ha : checked a = some a) (hb : checked b = some b) :
    (∃ i j, i + j = n ∧ HasRoom a i ∧ HasZeros b j) ↔
      n ≤ (shiftLeft a 39).2 + (shiftRight b 39).2 := by
  simp only [hasRoom_iff ha, hasZeros_iff hb, exists_add_eq_iff]

theorem shiftRight_ne_zero (hb : b ≠ 0) (fuel : ℕ) : (shiftRight b fuel).1 ≠ 0 := by
  intro h
  have := shiftRight_mul_pow b fuel
  rw [h, zero_mul] at this
  exact hb this.symm

-- The quotient after both numbers have been shifted.
theorem tdiv_shift (h : 18 ≤ p + q) :
    ((a * 10 ^ p).tdiv r).tdiv (10 ^ (p + q - 18)) = (a * decimalPartPow).tdiv (r * 10 ^ q) := by
  have h₁ : a * 10 ^ p * decimalPartPow = a * decimalPartPow * 10 ^ p := by ring
  have h₂ : r * 10 ^ (p + q - 18) * decimalPartPow = r * 10 ^ q * 10 ^ p := by
    rw [decimalPartPow, mul_assoc, ← pow_add, Nat.sub_add_cancel h, Nat.add_comm, pow_add,
      mul_assoc]
  calc ((a * 10 ^ p).tdiv r).tdiv (10 ^ (p + q - 18))
    _ = (a * 10 ^ p).tdiv (r * 10 ^ (p + q - 18)) := Int.tdiv_tdiv ..
    _ = (a * 10 ^ p * decimalPartPow).tdiv (r * 10 ^ (p + q - 18) * decimalPartPow) :=
      (Int.mul_tdiv_mul_of_pos_left _ _ (by decide)).symm
    _ = (a * decimalPartPow * 10 ^ p).tdiv (r * 10 ^ q * 10 ^ p) := by rw [h₁, h₂]
    _ = (a * decimalPartPow).tdiv (r * 10 ^ q) :=
      Int.mul_tdiv_mul_of_pos_left _ _ (by positivity)

theorem tdiv_eq_shifted (h : 18 ≤ (shiftLeft a 39).2 + (shiftRight b 39).2) :
    (a * decimalPartPow).tdiv b = ((shiftLeft a 39).1.tdiv (shiftRight b 39).1).tdiv
      (10 ^ ((shiftLeft a 39).2 + (shiftRight b 39).2 - 18)) := by
  rw [shiftLeft_eq, tdiv_shift h, shiftRight_mul_pow]

theorem checkedDiv_eq_none_of_lt (h : (shiftLeft a 39).2 + (shiftRight b 39).2 < 18) :
    checkedDiv a b = none := by
  unfold checkedDiv
  exact if_pos h

theorem checkedDiv_eq_bind (h : 18 ≤ (shiftLeft a 39).2 + (shiftRight b 39).2) :
    checkedDiv a b = (checkedQuotient (shiftLeft a 39).1 (shiftRight b 39).1).bind fun quotient =>
      (checked (10 ^ ((shiftLeft a 39).2 + (shiftRight b 39).2 - 18))).bind
        (checkedQuotient quotient) := by
  unfold checkedDiv
  exact if_neg (not_lt.mpr h)

theorem checkedDiv_zero (a : ℤ) : checkedDiv a 0 = none := by
  rcases lt_or_ge ((shiftLeft a 39).2 + (shiftRight 0 39).2) 18 with h | h
  · exact checkedDiv_eq_none_of_lt h
  · rw [checkedDiv_eq_bind h, shiftRight_zero]
    rfl

-- The numbers are of so different sizes that the last shift overflows.
theorem checkedDiv_of_far (ha : checked a = some a)
    (h : 57 ≤ (shiftLeft a 39).2 + (shiftRight b 39).2) :
    checkedDiv a b = none ∧ (a * decimalPartPow).tdiv b = 0 := by
  set k := (shiftLeft a 39).2 + (shiftRight b 39).2 - 18 with hk
  have hp : (10 : ℤ) ^ 39 ≤ 10 ^ k := pow_le_pow_right₀ (by decide) (by omega)
  constructor
  case left =>
    have hc : checked (10 ^ k) = none := by
      rw [checked, Int.checked_eq_none_iff]
      omega
    rw [checkedDiv_eq_bind (by omega), ← hk, hc]
    cases checkedQuotient (shiftLeft a 39).1 (shiftRight b 39).1 <;> rfl
  case right =>
    have hl := mem_of_checked (checked_shiftLeft ha 39)
    have hq := Int.natAbs_tdiv_le_natAbs (shiftLeft a 39).1 (shiftRight b 39).1
    rw [tdiv_eq_shifted (by omega), ← hk]
    exact Int.tdiv_eq_zero_of_natAbs_lt (by omega)

-- The only quotient that overflows is the one of the smallest number and -1.
theorem checkedDiv_of_near (ha : checked a = some a) (hb : b ≠ 0)
    (h₁ : 18 ≤ (shiftLeft a 39).2 + (shiftRight b 39).2)
    (h₂ : (shiftLeft a 39).2 + (shiftRight b 39).2 < 57) :
    checkedDiv a b = if (shiftLeft a 39).1 = -2 ^ 127 ∧ (shiftRight b 39).1 = -1 then none
      else checked ((a * decimalPartPow).tdiv b) := by
  have hr := shiftRight_ne_zero hb 39
  have hl := mem_of_checked (checked_shiftLeft ha 39)
  have hm := Int.tdiv_mem_iff hl hr
  rw [checkedDiv_eq_bind h₁, checkedQuotient, if_neg hr, tdiv_eq_shifted h₁]
  split
  case isTrue h =>
    have hn : checked ((shiftLeft a 39).1.tdiv (shiftRight b 39).1) = none := by
      rw [checked, Int.checked_eq_none_iff]
      exact hm.not.mpr (not_not.mpr h)
    rw [hn]
    rfl
  case isFalse h =>
    have hs : checked ((shiftLeft a 39).1.tdiv (shiftRight b 39).1) =
      some ((shiftLeft a 39).1.tdiv (shiftRight b 39).1) := Int.checked_of_mem (hm.mpr h)
    rw [hs, checked_pow (by omega)]
    simp only [Option.bind_some]
    rw [checkedQuotient, if_neg (by positivity)]

theorem shiftLeft_smallest : shiftLeft (-2 ^ 127) 39 = (-2 ^ 127, 0) := by decide

theorem eq_smallest_of_shiftLeft (h : (shiftLeft a 39).1 = -2 ^ 127) :
    a = -2 ^ 127 ∧ (shiftLeft a 39).2 = 0 := by
  rw [shiftLeft_eq] at h
  cases hp : (shiftLeft a 39).2
  case zero => simpa [hp] using h
  case succ k =>
    rw [hp, pow_succ, ← mul_assoc] at h
    omega

theorem shiftRight_neg_pow_iff :
    (shiftRight b 39).1 = -1 ↔ b = -10 ^ (shiftRight b 39).2 := by
  have h := shiftRight_mul_pow b 39
  have hp : (10 : ℤ) ^ (shiftRight b 39).2 ≠ 0 := by positivity
  constructor
  case mp =>
    intro hr
    rw [hr] at h
    omega
  case mpr =>
    intro hr
    apply mul_right_cancel₀ hp
    omega

-- The number of zeros of a power is its exponent.
theorem shiftRight_neg_pow (hb : checked (-10 ^ k) = some (-10 ^ k)) :
    (shiftRight (-10 ^ k) 39).2 = k := by
  have h : HasZeros (-10 ^ k) (shiftRight (-10 ^ k) 39).2 := (hasZeros_iff hb).mpr le_rfl
  apply le_antisymm
  · have hu : ¬IsUnit (10 : ℤ) := by
      rw [Int.isUnit_iff]
      decide
    exact (pow_dvd_pow_iff (by decide) hu).mp (dvd_neg.mp h.1)
  · exact (hasZeros_iff hb).mp ⟨dvd_neg.mpr dvd_rfl, fun h₀ => absurd h₀ (by simp)⟩

def IsQuotient (a b : ℤ) (result : Option ℤ) : Prop :=
  if b = 0 then result = none else IsResult (truncated (toRat a / toRat b)) result

theorem checkedDiv_iff (a b : BitVec 128) :
    IsQuotient a.toInt b.toInt (checkedDiv a.toInt b.toInt) ↔
      (b.toInt ≠ 0 → Representable (truncated (toRat a.toInt / toRat b.toInt)) →
        (∃ i j, i + j = 18 ∧ HasRoom a.toInt i ∧ HasZeros b.toInt j) ∧
        (¬∃ i j, i + j = 57 ∧ HasRoom a.toInt i ∧ HasZeros b.toInt j) ∧
        ¬(a.toInt = -2 ^ 127 ∧ ∃ k > 18, b.toInt = -10 ^ k)) := by
  have ha := checked_toInt a
  have hb := checked_toInt b
  simp only [exists_hasRoom_iff ha hb]
  generalize a.toInt = a at *
  generalize b.toInt = b at *
  unfold IsQuotient
  split
  case isTrue h₀ =>
    rw [h₀, checkedDiv_zero]
    simp
  case isFalse h₀ =>
    simp only [ne_eq, h₀, not_false_eq_true, true_implies]
    rcases lt_or_ge ((shiftLeft a 39).2 + (shiftRight b 39).2) 18 with h₁ | h₁
    case inl =>
      rw [checkedDiv_eq_none_of_lt h₁, IsResult]
      exact ⟨fun h hr => absurd hr h, fun h hr => absurd (h hr).1 (not_le.mpr h₁)⟩
    case inr =>
      rcases lt_or_ge ((shiftLeft a 39).2 + (shiftRight b 39).2) 57 with h₂ | h₂
      case inr =>
        have ⟨hn, hz⟩ := checkedDiv_of_far ha h₂
        have hr : Representable (truncated (toRat a / toRat b)) := by
          rw [truncated_toRat_div, hz]
          exact ⟨0, rfl⟩
        rw [hn, IsResult]
        exact iff_of_false (not_not.mpr hr) fun h => (h hr).2.1 h₂
      case inl =>
        rw [checkedDiv_of_near ha h₀ h₁ h₂]
        split
        case isTrue h =>
          have ⟨hs, hp⟩ := eq_smallest_of_shiftLeft h.1
          have hm : b = -10 ^ (shiftRight b 39).2 := shiftRight_neg_pow_iff.mp h.2
          rw [IsResult]
          refine ⟨fun h hr => absurd hr h, fun h hr => (h hr).2.2 ⟨hs, _, ?_, hm⟩⟩
          -- If there are no zeros left, the quotient is too large by one.
          by_contra hq
          have hb₁ : b = -decimalPartPow := by rw [hm, (by omega : (shiftRight b 39).2 = 18)]; rfl
          rw [truncated_toRat_div, representable_toRat_iff, hs, hb₁] at hr
          contradiction
        case isFalse h =>
          rw [truncated_toRat_div]
          refine iff_of_true (isResult_checked _) fun _ => ⟨h₁, not_le.mpr h₂, ?_⟩
          rintro ⟨rfl, k, -, rfl⟩
          exact h
            ⟨by rw [shiftLeft_smallest], by rw [shiftRight_neg_pow_iff, shiftRight_neg_pow hb]⟩

-- 1000 divided by the smallest decimal above 1
theorem not_isQuotient_checkedDiv :
    ¬IsQuotient (1000000000000000000000 : BitVec 128).toInt (1000000000000000001 : BitVec 128).toInt
      (checkedDiv (1000000000000000000000 : BitVec 128).toInt
        (1000000000000000001 : BitVec 128).toInt) := by
  have hn : checkedDiv (1000000000000000000000 : BitVec 128).toInt
      (1000000000000000001 : BitVec 128).toInt = none := by decide
  rw [hn, IsQuotient, if_neg (by decide), IsResult, not_not, truncated_toRat_div,
    representable_toRat_iff]
  decide

end Division

section Rounding

theorem floor_toRat (value : ℤ) : ⌊toRat value⌋ = value / decimalPartPow :=
  Rat.floor_intCast_div_natCast value (10 ^ 18)

theorem ceil_toRat (value : ℤ) : ⌈toRat value⌉ = -(-value / decimalPartPow) :=
  Rat.ceil_intCast_div_natCast value (10 ^ 18)

-- Halves are rounded up.
theorem round_toRat (value : ℤ) :
    round (toRat value) = (value + 5 * decimalPartPowMinusOne) / decimalPartPow := by
  have h : toRat value + 1 / 2 = toRat (value + 5 * decimalPartPowMinusOne) := by
    rw [toRat, toRat, decimalPartPow, decimalPartPowMinusOne]
    push_cast
    ring
  rw [round_eq, h, floor_toRat]

theorem returns_intCast_iff {n : ℤ} : Returns (n : ℚ) result ↔
    (checked (n * decimalPartPow) = some (n * decimalPartPow) →
      result = some (n * decimalPartPow)) := by
  rw [← toRat_mul_decimalPartPow, returns_checked_iff]

theorem toInt_decide (p : Prop) [Decidable p] : (decide p).toInt = if p then 1 else 0 := by
  split <;> simp_all

theorem checkedFloor_eq (value : ℤ) :
    checkedFloor value = checked (⌊toRat value⌋ * decimalPartPow) := by
  rw [floor_toRat]
  unfold checkedFloor decimalPartPow
  refine congrArg (fun n => checked (n * 10 ^ 18)) ?_
  rcases le_total 0 value with h | h
  case inl => rw [if_pos (.inl h), Int.tdiv_eq_ediv_of_nonneg h]
  case inr =>
    rw [Int.tmod_def, Int.tdiv_of_nonpos h]
    split <;> omega

theorem checkedCeil_eq (value : ℤ) :
    checkedCeil value = checked (⌈toRat value⌉ * decimalPartPow) := by
  rw [ceil_toRat]
  unfold checkedCeil decimalPartPow
  refine congrArg (fun n => checked (n * 10 ^ 18)) ?_
  rcases le_or_gt value 0 with h | h
  case inl => rw [if_neg (fun hn => absurd hn.1 (not_lt.mpr h)), Int.tdiv_of_nonpos h]
  case inr =>
    rw [Int.tmod_def, Int.tdiv_eq_ediv_of_nonneg h.le]
    split <;> omega

-- The fraction of a negative number is between 0.5 and 0.6.
def BeyondTie (value : ℤ) : Prop :=
  value < 0 ∧ 5 * decimalPartPowMinusOne < -value % decimalPartPow ∧
    -value % decimalPartPow < 6 * decimalPartPowMinusOne

instance : Decidable (BeyondTie value) := inferInstanceAs (Decidable (_ ∧ _ ∧ _))

-- The digit that decides about rounding has been cut off from the digits that follow it.
theorem checkedRound_eq (value : ℤ) :
    checkedRound value =
      checked ((round (toRat value) + (decide (BeyondTie value)).toInt) * decimalPartPow) := by
  rw [round_toRat, toInt_decide]
  unfold checkedRound BeyondTie decimalPartPow decimalPartPowMinusOne
  refine congrArg (fun n => checked (n * 10 ^ 18)) ?_
  rcases le_or_gt 0 value with h | h
  case inl =>
    have h₁ : 0 ≤ value / 10 ^ 17 := by omega
    rw [Int.tdiv_eq_ediv_of_nonneg h]
    simp only [if_pos h₁, Int.tmod_def, Int.tdiv_eq_ediv_of_nonneg h₁, toInt_decide]
    split_ifs <;> omega
  case inr =>
    rw [Int.tdiv_of_nonpos h.le]
    rcases (by omega : -value / 10 ^ 17 = 0 ∨ 0 < -value / 10 ^ 17) with h₁ | h₁
    case inl =>
      simp only [h₁, neg_zero, le_refl, ↓reduceIte, Int.zero_tdiv, Int.zero_tmod, toInt_decide]
      split_ifs <;> omega
    case inr =>
      have h₂ : 0 ≤ - -(-value / 10 ^ 17) := by omega
      simp only [if_neg (by omega : ¬0 ≤ -(-value / 10 ^ 17)), toInt_decide, Int.tmod_def,
        Int.tdiv_of_nonpos (by omega : -(-value / 10 ^ 17) ≤ 0), Int.tdiv_eq_ediv_of_nonneg h₂]
      split_ifs <;> omega

theorem checkedFloor_returns (value : ℤ) : Returns (⌊toRat value⌋ : ℤ) (checkedFloor value) := by
  rw [returns_intCast_iff, checkedFloor_eq]
  exact id

theorem checkedCeil_returns (value : ℤ) : Returns (⌈toRat value⌉ : ℤ) (checkedCeil value) := by
  rw [returns_intCast_iff, checkedCeil_eq]
  exact id

theorem round_of_beyondTie (h : BeyondTie value) : round (toRat value) = ⌊toRat value⌋ := by
  rw [round_toRat, floor_toRat]
  unfold BeyondTie decimalPartPowMinusOne decimalPartPow at *
  omega

theorem checkedRound_returns_iff (value : ℤ) :
    Returns (round (toRat value) : ℤ) (checkedRound value) ↔
      (BeyondTie value → ¬Representable (⌊toRat value⌋ : ℤ)) := by
  rw [returns_intCast_iff, checkedRound_eq]
  by_cases h : BeyondTie value
  case neg => simp [h]
  case pos =>
    rw [← round_of_beyondTie h, ← toRat_mul_decimalPartPow, representable_toRat_iff]
    simp only [h, decide_true, true_implies]
    refine ⟨fun hr hc => ?_, fun hn hc => absurd hc hn⟩
    have := Int.checked_eq_some_iff.mp (hr hc)
    have h₁ : (true : Bool).toInt = 1 := rfl
    have := this.1
    unfold decimalPartPow at this
    omega

-- Rounding is right but for negative numbers between a tie and the next digit.
theorem rounding_iff (d : BitVec 128) :
    (Returns (⌊toRat d.toInt⌋ : ℤ) (checkedFloor d.toInt) ∧
      Returns (⌈toRat d.toInt⌉ : ℤ) (checkedCeil d.toInt) ∧
      Returns (round (toRat d.toInt) : ℤ) (checkedRound d.toInt)) ↔
      (BeyondTie d.toInt → ¬Representable (⌊toRat d.toInt⌋ : ℤ)) := by
  rw [checkedRound_returns_iff]
  exact ⟨fun h => h.2.2, fun h => ⟨checkedFloor_returns _, checkedCeil_returns _, h⟩⟩

-- -0.55 is rounded to 0.
theorem not_returns_checkedRound :
    ¬Returns (round (toRat (-550000000000000000 : BitVec 128).toInt) : ℤ)
      (checkedRound (-550000000000000000 : BitVec 128).toInt) := by
  rw [checkedRound_returns_iff, floor_toRat, ← toRat_mul_decimalPartPow, representable_toRat_iff]
  decide

end Rounding

end Datatypes.Decimal
