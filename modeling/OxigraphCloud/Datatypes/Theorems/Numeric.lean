import OxigraphCloud.Datatypes.Numeric

namespace Datatypes

theorem Boolean.fromStr_display (value : Bool) : fromStr (display value) = some value := by
  cases value <;> rfl

-- The sign that is read from what `printSign` writes.
def signOf (value : ℤ) : ℤ := if value < 0 then -1 else 1

theorem signOf_eq (value : ℤ) : signOf value = 1 ∨ signOf value = -1 := by
  unfold signOf
  split <;> simp

theorem signOf_mul_natAbs (value : ℤ) : signOf value * value.natAbs = value := by
  unfold signOf
  split <;> omega

theorem splitSign_printSign (hd : ∀ c ∈ digits, c.isDigit) (hn : digits ≠ []) :
    splitSign (printSign value ++ digits ++ rest) = (signOf value, digits ++ rest) := by
  rcases digits with _ | ⟨c, digits⟩
  case nil => exact absurd rfl hn
  case cons =>
    have hc : c.isDigit := hd c (by simp)
    have hp : c ≠ '+' := fun h => by simp [h] at hc
    have hm : c ≠ '-' := fun h => by simp [h] at hc
    unfold printSign signOf
    split <;> simp [splitSign, hp, hm]

namespace Integer

theorem fromStr_printSign (hd : ∀ c ∈ digits, c.isDigit) (hn : digits ≠ []) :
    fromStr w (printSign value ++ digits) =
      Int.checked w (signOf value * Nat.ofDigitChars 10 digits 0) := by
  have hs : splitSign (printSign value ++ digits ++ []) = (signOf value, digits ++ []) :=
    splitSign_printSign hd hn
  rw [List.append_nil, List.append_nil] at hs
  have h₀ : Int.checked w (signOf value * (0 : ℕ)) ≠ none := by simp
  rw [fromStr, hs]
  simp only [hn, ne_eq, not_false_eq_true, List.all_eq_true.mpr hd, and_self, ↓reduceIte]
  simpa using readDigits_eq (signOf_eq value) h₀

theorem fromStr_display (h : Int.checked w value = some value) :
    fromStr w (display value) = some value := by
  rw [display, fromStr_printSign, Nat.ofDigitChars_ten_toDigits, signOf_mul_natAbs, h]
  · exact fun _ => Nat.isDigit_of_mem_toDigits (by decide) (by decide)
  · exact Nat.toDigits_ne_nil

end Integer

namespace Decimal

-- The digits after the dot and the dot itself, for a number of units of `10 ^ -18`.
def fractionDigits (n : ℕ) : List Char := Nat.fixedDigits 18 n |>.rdropWhile (· = '0')

def fraction (n : ℕ) : List Char := if n % 10 ^ 18 = 0 then [] else '.' :: fractionDigits n

theorem fixedDigits_eq_zeros_iff :
    (∀ c ∈ Nat.fixedDigits width n, c = '0') ↔ n % 10 ^ width = 0 := by
  rw [Nat.eq_zero_iff_of_isDigit fun _ => Nat.isDigit_of_mem_fixedDigits,
    Nat.ofDigitChars_fixedDigits]

-- The last 18 digits of the number in the buffer.
theorem take_buffer (n : ℕ) :
    ((Nat.toDigits 10 n).reverse.rightpad 18 '0').take 18 = (Nat.fixedDigits 18 n).reverse := by
  rcases lt_or_ge n (10 ^ 18) with h | h
  case inl =>
    have hl := (Nat.length_toDigits_le_iff (b := 10) (by decide) (by decide)).mpr h
    rw [← Nat.padded_eq_fixedDigits h (by decide), Nat.padded, List.leftpad, List.rightpad]
    rw [List.take_of_length_le (by simp; omega)]
    simp
  case inr =>
    rw [Nat.toDigits_eq_append h, List.rightpad, List.reverse_append, List.append_assoc]
    exact List.take_left' (by simp)

theorem drop_buffer (n : ℕ) :
    (if decimalPartDigits < (Nat.toDigits 10 n).reverse.length then
      ((Nat.toDigits 10 n).reverse.drop decimalPartDigits).reverse else ['0']) =
        Nat.toDigits 10 (n / 10 ^ 18) := by
  have hl := Nat.length_toDigits_le_iff (b := 10) (n := n) (k := 18) (by decide) (by decide)
  rw [List.length_reverse, decimalPartDigits]
  rcases lt_or_ge n (10 ^ 18) with h | h
  case inl => rw [if_neg (by omega), Nat.div_eq_of_lt h, Nat.toDigits_zero]
  case inr =>
    rw [if_pos (by omega), Nat.toDigits_eq_append h, List.reverse_append, List.drop_left' (by simp)]
    simp

-- The first digit of the buffer that is not zero, if it belongs to the fraction.
theorem findIdx_buffer (hn : n ≠ 0) :
    let first := (Nat.toDigits 10 n).reverse.findIdx (· ≠ '0')
    if n % 10 ^ 18 = 0 then 18 ≤ first
    else first < 18 ∧ first = (Nat.fixedDigits 18 n).reverse.findIdx (· ≠ '0') := by
  intro first
  set buffer := (Nat.fixedDigits 18 n).reverse with hb
  have hlt : buffer.findIdx (· ≠ '0') < 18 ↔ n % 10 ^ 18 ≠ 0 := by
    have hl : buffer.length = 18 := by simp [hb]
    rw [ne_eq, ← fixedDigits_eq_zeros_iff, ← hl, List.findIdx_lt_length]
    simp [hb]
  rcases lt_or_ge n (10 ^ 18) with h | h
  case inl =>
    -- The buffer is filled up with zeros.
    have hz : first < (Nat.toDigits 10 n).reverse.length := by
      rw [List.findIdx_lt_length]
      by_contra hz
      have h₀ : ∀ c ∈ Nat.toDigits 10 n, c = '0' := by simpa using hz
      rw [Nat.eq_zero_iff_of_isDigit, Nat.ofDigitChars_ten_toDigits] at h₀
      · exact hn h₀
      · exact fun _ => Nat.isDigit_of_mem_toDigits (by decide) (by decide)
    have hf : buffer.findIdx (· ≠ '0') = first := by
      rw [hb, ← Nat.padded_eq_fixedDigits h (by decide), Nat.padded, List.leftpad,
        List.reverse_append, List.findIdx_append, if_pos hz]
    rw [Nat.mod_eq_of_lt h, if_neg hn, hf]
    rw [hf, Nat.mod_eq_of_lt h] at hlt
    exact ⟨hlt.mpr hn, rfl⟩
  case inr =>
    have hf : first = if buffer.findIdx (· ≠ '0') < 18 then buffer.findIdx (· ≠ '0') else
        (Nat.toDigits 10 (n / 10 ^ 18)).reverse.findIdx (· ≠ '0') + 18 := by
      simp only [first, Nat.toDigits_eq_append h, List.reverse_append, List.findIdx_append, ← hb]
      simp [hb]
    split
    case isTrue h₀ =>
      rw [hf, if_neg (hlt.not.mpr (by simpa using h₀))]
      omega
    case isFalse h₀ =>
      rw [hf, if_pos (hlt.mpr h₀)]
      exact ⟨hlt.mpr h₀, rfl⟩

theorem display_eq (value : ℤ) :
    display value = printSign value ++ Nat.toDigits 10 (value.natAbs / 10 ^ 18) ++
      fraction value.natAbs := by
  unfold display
  split
  case isTrue h => simp [h, printSign, fraction]
  case isFalse h =>
    have hf := findIdx_buffer (by simpa using h : value.natAbs ≠ 0)
    simp only [drop_buffer, fraction]
    simp only [decimalPartDigits, take_buffer]
    split at hf
    case isTrue h₀ => rw [if_neg (by omega), if_pos h₀]
    case isFalse h₀ =>
      rw [if_pos hf.1, if_neg h₀, hf.2, fractionDigits, List.rdropWhile,
        List.dropWhile_eq_drop_findIdx_not]
      simp

theorem noDigit_fraction : NoDigit (fraction n) := by
  unfold fraction
  split <;> rfl

theorem isDigit_of_mem_fractionDigits (h : c ∈ fractionDigits n) : c.isDigit :=
  Nat.isDigit_of_mem_fixedDigits <| (List.rdropWhile_prefix _ _).subset h

-- The zeros that have been dropped.
theorem fractionDigits_append_zeros :
    fractionDigits n ++ .replicate (18 - (fractionDigits n).length) '0' = Nat.fixedDigits 18 n := by
  have h := List.rdropWhile_append_replicate '0' (Nat.fixedDigits 18 n)
  rwa [Nat.length_fixedDigits] at h

theorem length_fractionDigits_le : (fractionDigits n).length ≤ 18 := by
  have h := (List.rdropWhile_prefix (· = '0') (Nat.fixedDigits 18 n)).length_le
  rwa [Nat.length_fixedDigits] at h

theorem ofDigitChars_fractionDigits (m n : ℕ) :
    Nat.ofDigitChars 10 (fractionDigits n) m * 10 ^ (18 - (fractionDigits n).length) =
      m * 10 ^ 18 + n % 10 ^ 18 := by
  have h := congrArg (Nat.ofDigitChars 10 · m) (fractionDigits_append_zeros (n := n))
  simp only [Nat.ofDigitChars_append, Nat.ofDigitChars_replicate_zero] at h
  rw [Nat.mul_comm, h, Nat.ofDigitChars_eq_ofDigitChars_zero, Nat.ofDigitChars_fixedDigits,
    Nat.length_fixedDigits, Nat.mul_comm]

theorem foldl_ediv {digits : List Char} (exp : ℤ) :
    digits.foldl (fun (exp : ℤ) _ => exp / 10) exp = exp / 10 ^ digits.length := by
  induction digits generalizing exp with
  | nil => simp
  | cons c digits ih =>
    rw [List.foldl_cons, ih, Int.ediv_ediv_of_nonneg (by decide), List.length_cons, pow_succ']

-- Scaling a number of some sign keeps an overflow.
theorem checked_bind_mul {m e : ℕ} (hs : sign = 1 ∨ sign = -1) (he : 0 < e) :
    (checked (sign * m)).bind (fun value => checked (value * e)) =
      checked (sign * (m * e : ℕ)) := by
  cases h : checked (sign * m)
  case none => exact (Int.checked_eq_none_of_le hs (Nat.le_mul_of_pos_right m he) h).symm
  case some value =>
    obtain ⟨rfl, -⟩ := Int.checked_eq_some_iff.mp h
    simp [mul_assoc]

theorem readFraction_eq (hs : sign = 1 ∨ sign = -1) {m : ℕ} (hd : ∀ c ∈ digits, c.isDigit)
    (hm : checked (sign * m) ≠ none) :
    readFraction sign (sign * m) digits = if digits.length ≤ 18 then
      checked (sign * (Nat.ofDigitChars 10 digits m * 10 ^ (18 - digits.length) : ℕ))
    else none := by
  unfold readFraction
  rw [if_pos (List.all_eq_true.mpr hd), decimalPartPow, foldl_ediv, readDigits_eq hs hm]
  split
  case isTrue h =>
    have he : (10 : ℤ) ^ 18 / 10 ^ digits.length = 10 ^ (18 - digits.length) :=
      Int.ediv_eq_of_eq_mul_left (by positivity) (by rw [← pow_add, Nat.sub_add_cancel h])
    have hp : 0 < 10 ^ (18 - digits.length) := by positivity
    rw [← checked_bind_mul hs hp, he]
    simp only [if_neg (by positivity : (10 : ℤ) ^ (18 - digits.length) ≠ 0), Option.bind_eq_bind,
      checked, Nat.cast_pow, Nat.cast_ofNat]
  case isFalse h =>
    have he : (10 : ℤ) ^ 18 / 10 ^ digits.length = 0 :=
      Int.ediv_eq_zero_of_lt (by positivity) (pow_lt_pow_right₀ (by decide) (by omega))
    rw [he]
    cases Int.checked 128 (sign * Nat.ofDigitChars 10 digits m) <;> rfl

theorem readFraction_fractionDigits (hs : sign = 1 ∨ sign = -1) {m n : ℕ}
    (hm : checked (sign * m) ≠ none) :
    readFraction sign (sign * m) (fractionDigits n) =
      checked (sign * (m * 10 ^ 18 + n % 10 ^ 18 : ℕ)) := by
  rw [readFraction_eq hs (fun _ => isDigit_of_mem_fractionDigits) hm,
    if_pos length_fractionDigits_le, ofDigitChars_fractionDigits]

-- A numeral is read as the number that it stands for.
theorem fromStr_numeral (hd : ∀ c ∈ digits, c.isDigit) (hn : digits ≠ []) :
    fromStr (printSign value ++ digits ++ fraction n) =
      checked (signOf value * (Nat.ofDigitChars 10 digits 0 * 10 ^ 18 + n % 10 ^ 18 : ℕ)) := by
  have h₀ : Int.checked 128 (signOf value * (0 : ℕ)) ≠ none := by simp
  have hr : readDigits 128 (signOf value) 0 digits =
      checked (signOf value * Nat.ofDigitChars 10 digits 0) := by
    simpa [checked] using readDigits_eq (signOf_eq value) h₀
  unfold fromStr
  simp only [splitSign_printSign hd hn, List.span_isDigit hd noDigit_fraction, hr]
  cases h : checked (signOf value * Nat.ofDigitChars 10 digits 0)
  case none =>
    exact (Int.checked_eq_none_of_le (signOf_eq value) (by omega) h).symm
  case some m =>
    obtain ⟨rfl, -⟩ := Int.checked_eq_some_iff.mp h
    by_cases hz : n % 10 ^ 18 = 0
    case pos =>
      rw [fraction, if_pos hz, hz]
      simp [hn, decimalPartPow, mul_assoc]
    case neg =>
      rw [fraction, if_neg hz]
      simp only [Option.bind_eq_bind, Option.bind_some, hn, and_false, ↓reduceIte]
      rw [fractionDigits, List.rdropWhile_idempotent]
      exact readFraction_fractionDigits (signOf_eq value) (by simp [h])

theorem fromStr_display (h : checked value = some value) :
    fromStr (display value) = some value := by
  have hd (c) (h : c ∈ Nat.toDigits 10 (value.natAbs / 10 ^ 18)) : c.isDigit :=
    Nat.isDigit_of_mem_toDigits (by decide) (by decide) h
  rw [display_eq, fromStr_numeral hd Nat.toDigits_ne_nil, Nat.ofDigitChars_ten_toDigits,
    Nat.div_add_mod', signOf_mul_natAbs, h]

theorem shiftRight_mul_pow (value : ℤ) (fuel : ℕ) :
    (shiftRight value fuel).1 * 10 ^ (shiftRight value fuel).2 = value := by
  induction fuel generalizing value with
  | zero => simp [shiftRight]
  | succ fuel ih =>
    unfold shiftRight
    split
    case isTrue h =>
      simp only [pow_succ, ← mul_assoc, ih]
      exact Int.tdiv_mul_cancel (Int.dvd_of_tmod_eq_zero h.2)
    case isFalse => simp

-- All zeros at the end are removed.
theorem le_shiftRight (hv : value ≠ 0) (hd : 10 ^ k ∣ value) (hk : k ≤ fuel) :
    k ≤ (shiftRight value fuel).2 := by
  induction fuel generalizing value k with
  | zero => exact hk
  | succ fuel ih =>
    rcases k with _ | k
    case zero => exact Nat.zero_le _
    case succ =>
      have ⟨n, hn⟩ := hd
      have h₁ : value = n * 10 ^ k * 10 := by rw [hn]; ring
      have h₂ : value.tdiv 10 = n * 10 ^ k := by rw [h₁, Int.mul_tdiv_cancel _ (by decide)]
      have h₃ : value.tmod 10 = 0 := by rw [h₁, Int.mul_tmod_left]
      have h₄ : value.tdiv 10 ≠ 0 := fun h => hv (by rw [h₁, ← h₂, h, zero_mul])
      unfold shiftRight
      rw [if_pos ⟨hv, h₃⟩]
      exact Nat.succ_le_succ <| ih h₄ (h₂ ▸ Dvd.intro_left n rfl) (by omega)

theorem checked_of_abs_lt (h : |value| < 2 ^ 127) : checked value = some value := by
  rw [abs_lt] at h
  exact Int.checked_of_mem ⟨by omega, h.2⟩

end Decimal

end Datatypes
