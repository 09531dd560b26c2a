import OxigraphCloud.Datatypes.Theorems.Decimal

namespace Datatypes

-- A word of the grammar `(\+|-)?([0-9]+(\.[0-9]*)?|\.[0-9]+)` of decimals.
structure Numeral where
  sign             : List Char
  whole            : List Char
  fraction         : Option (List Char)
  mem_signs        : sign ∈ [[], ['+'], ['-']]
  isDigit_whole    : ∀ c ∈ whole, c.isDigit
  isDigit_fraction : ∀ digits ∈ fraction, ∀ c ∈ digits, c.isDigit
  digits_ne_nil    : whole ++ fraction.getD [] ≠ []

namespace Numeral

variable {n : Numeral} {m k : ℕ} {digits : List Char}

def text (n : Numeral) : List Char := n.sign ++ (n.whole ++ n.fraction.elim [] ('.' :: ·))

def signum (n : Numeral) : ℤ := if n.sign = ['-'] then -1 else 1

-- The number that a numeral stands for.
def value (n : Numeral) : ℚ :=
  n.signum *
    (Nat.ofDigitChars 10 (n.whole ++ n.fraction.getD []) 0 / 10 ^ (n.fraction.getD []).length)

-- The digits after the dot without the zeros at the end.
def significant (n : Numeral) : List Char := (n.fraction.getD []).rdropWhile (· = '0')

theorem signum_eq (n : Numeral) : n.signum = 1 ∨ n.signum = -1 := by
  unfold signum
  split <;> simp

theorem isDigit_of_mem_significant (h : c ∈ n.significant) : c.isDigit := by
  have h := (List.rdropWhile_prefix _ _).subset h
  cases hf : n.fraction
  case none => simp [hf] at h
  case some => exact n.isDigit_fraction _ hf _ (by simpa [hf] using h)

-- The numeral as a multiple of the smallest decimal, if it has at most 18 significant digits.
def units (n : Numeral) : ℤ :=
  n.signum *
    (Nat.ofDigitChars 10 (n.whole ++ n.significant) 0 * 10 ^ (18 - n.significant.length) : ℕ)

theorem ofDigitChars_significant (n : Numeral) :
    Nat.ofDigitChars 10 (n.whole ++ n.fraction.getD []) 0 =
      Nat.ofDigitChars 10 (n.whole ++ n.significant) 0 *
        10 ^ ((n.fraction.getD []).length - n.significant.length) := by
  have h := List.rdropWhile_append_replicate '0' (n.fraction.getD [])
  rw [← significant] at h
  nth_rewrite 1 [← h]
  rw [← List.append_assoc, Nat.ofDigitChars_append, Nat.ofDigitChars_replicate_zero, Nat.mul_comm]

theorem toRat_units (h : n.significant.length ≤ 18) : Decimal.toRat n.units = n.value := by
  have hl : n.significant.length ≤ (n.fraction.getD []).length :=
    (List.rdropWhile_prefix _ _).length_le
  rw [units, value, ofDigitChars_significant, Decimal.toRat, Decimal.decimalPartPow]
  have hp : ((10 ^ 18 : ℤ) : ℚ) = 10 ^ 18 := by norm_num
  rw [hp]
  push_cast
  rw [mul_div_assoc]
  congr 1
  rw [div_eq_div_iff (by positivity) (by positivity), mul_assoc, mul_assoc, ← pow_add, ← pow_add]
  congr 2
  omega

-- The number of the digits is not divisible by ten, since the last one is not zero.
theorem mod_ofDigitChars_significant_ne (h : n.significant ≠ []) :
    Nat.ofDigitChars 10 (n.whole ++ n.significant) 0 % 10 ≠ 0 := by
  have hl : n.significant.getLast h ≠ '0' :=
    fun h₀ => List.rdropWhile_last_not (· = '0') (n.fraction.getD []) h (decide_eq_true h₀)
  have hd := Char.isDigit_iff_toNat.mp <| n.isDigit_of_mem_significant (List.getLast_mem h)
  have hz : '0'.toNat = 48 := rfl
  have hn : '9'.toNat = 57 := rfl
  rw [ne_eq, ← Char.toNat_inj] at hl
  rw [← List.dropLast_append_getLast h, ← List.append_assoc, Nat.ofDigitChars_append,
    Nat.ofDigitChars_cons, Nat.ofDigitChars_nil]
  omega

theorem value_eq (n : Numeral) :
    n.value = n.signum *
      (Nat.ofDigitChars 10 (n.whole ++ n.significant) 0 / 10 ^ n.significant.length) := by
  have hl : n.significant.length ≤ (n.fraction.getD []).length :=
    (List.rdropWhile_prefix _ _).length_le
  rw [value, ofDigitChars_significant]
  congr 1
  push_cast
  rw [div_eq_div_iff (by positivity) (by positivity), mul_assoc, ← pow_add, Nat.sub_add_cancel hl]

-- The value is a multiple of the smallest decimal.
theorem length_significant_le (h : Decimal.toRat x = n.value) : n.significant.length ≤ 18 := by
  by_contra hl
  set N := Nat.ofDigitChars 10 (n.whole ++ n.significant) 0 with hN
  obtain ⟨k, hk⟩ : ∃ k, n.significant.length = 18 + (k + 1) := ⟨n.significant.length - 19, by omega⟩
  have hne : n.significant ≠ [] := by
    rintro h
    simp [h] at hl
  have he : x * 10 ^ (k + 1) = n.signum * N := by
    rw [value_eq, Decimal.toRat, Decimal.decimalPartPow, ← hN, hk, ← mul_div_assoc,
      div_eq_div_iff (by norm_num) (by positivity), pow_add] at h
    have hq : (x : ℚ) * 10 ^ (k + 1) * 10 ^ 18 = n.signum * N * 10 ^ 18 := by
      push_cast at h
      linarith
    exact mul_right_cancel₀ (by norm_num : (10 ^ 18 : ℤ) ≠ 0) (by exact_mod_cast hq)
  have := mod_ofDigitChars_significant_ne hne
  rw [pow_succ, ← mul_assoc] at he
  rcases n.signum_eq with hs | hs <;> rw [hs] at he <;> omega

end Numeral

namespace Decimal

theorem splitSign_of_ne (hp : input.head? ≠ some '+') (hm : input.head? ≠ some '-') :
    splitSign input = (1, input) := by
  unfold splitSign
  split <;> simp_all

theorem head?_unsigned_ne (n : Numeral) (hc : ¬c.isDigit) (hd : c ≠ '.') :
    (n.whole ++ n.fraction.elim [] ('.' :: ·)).head? ≠ some c := by
  by_cases hw : n.whole = []
  case neg => exact head?_append_ne n.isDigit_whole hw hc
  case pos =>
    cases hf : n.fraction
    case none => simp [hw]
    case some => simpa [hw] using hd.symm

theorem splitSign_text (n : Numeral) :
    splitSign n.text = (n.signum, n.whole ++ n.fraction.elim [] ('.' :: ·)) := by
  have hs : n.sign = [] ∨ n.sign = ['+'] ∨ n.sign = ['-'] := by simpa using n.mem_signs
  unfold Numeral.text Numeral.signum
  rcases hs with hs | hs | hs <;> rw [hs]
  case inl =>
    rw [List.nil_append, splitSign_of_ne]
    · rfl
    · exact head?_unsigned_ne n (by decide) (by decide)
    · exact head?_unsigned_ne n (by decide) (by decide)
  case inr.inl => rfl
  case inr.inr => rfl

-- A numeral is read as the number of its units.
theorem fromStr_text (n : Numeral) :
    fromStr n.text = if n.significant.length ≤ 18 then checked n.units else none := by
  have h₀ : Int.checked 128 (n.signum * (0 : ℕ)) ≠ none := by simp
  have hr : readDigits 128 n.signum 0 n.whole =
      checked (n.signum * Nat.ofDigitChars 10 n.whole 0) := by
    simpa [checked] using readDigits_eq n.signum_eq h₀
  have hn : NoDigit (n.fraction.elim [] ('.' :: ·)) := by cases n.fraction <;> rfl
  unfold fromStr
  simp only [splitSign_text, List.span_isDigit n.isDigit_whole hn, hr]
  cases h : checked (n.signum * Nat.ofDigitChars 10 n.whole 0)
  case none =>
    -- The whole part is too large already.
    have hu : checked n.units = none := by
      refine Int.checked_eq_none_of_le n.signum_eq ?_ h
      rw [Nat.ofDigitChars_append]
      exact Nat.le_ofDigitChars.trans (Nat.le_mul_of_pos_right _ (by positivity))
    simp [hu]
  case some m =>
    obtain ⟨rfl, -⟩ := Int.checked_eq_some_iff.mp h
    have hu := n.digits_ne_nil
    cases hf : n.fraction
    case none =>
      have hsig : n.significant = [] := by simp [Numeral.significant, hf]
      have hw : n.whole ≠ [] := by simpa [hf] using hu
      simp [Numeral.units, hsig, hw, decimalPartPow, mul_assoc]
    case some digits =>
      have hsig : digits.rdropWhile (· = '0') = n.significant := by simp [Numeral.significant, hf]
      have hw : ¬(digits = [] ∧ n.whole = []) := fun h => by simp [hf, h] at hu
      simp only [Option.elim, Option.bind_eq_bind, Option.bind_some, if_neg hw]
      rw [hsig, readFraction_eq n.signum_eq (fun _ => n.isDigit_of_mem_significant) (by simp [h]),
        Numeral.units, Nat.ofDigitChars_append]

theorem exists_sign (input : List Char) :
    ∃ sign ∈ [[], ['+'], ['-']], input = sign ++ (splitSign input).2 := by
  unfold splitSign
  split <;> simp

-- Only digits and the zeros that are dropped can be read.
theorem isDigit_of_readFraction {digits : List Char}
    (h : readFraction sign m (digits.rdropWhile (· = '0')) = some value) :
    ∀ c ∈ digits, c.isDigit := by
  intro c hc
  unfold readFraction at h
  split at h
  case isFalse => contradiction
  case isTrue hd =>
    rw [← List.rdropWhile_append_replicate '0' digits, List.mem_append] at hc
    rcases hc with hc | hc
    · exact List.all_eq_true.mp hd c hc
    · rw [(List.mem_replicate.mp hc).2]
      rfl

theorem exists_numeral (h : fromStr input = some value) : ∃ n : Numeral, n.text = input := by
  have ⟨sign, hs, hi⟩ := exists_sign input
  unfold fromStr at h
  generalize splitSign input = s at h hi
  obtain ⟨_, input⟩ := s
  simp only [List.span_eq_takeWhile_dropWhile, Option.bind_eq_bind, Option.bind_eq_some_iff] at h
  obtain ⟨_, -, h⟩ := h
  have hw : ∀ c ∈ input.takeWhile Char.isDigit, c.isDigit := fun _ => List.mem_takeWhile_imp
  have hi' := List.takeWhile_append_dropWhile (p := Char.isDigit) (l := input)
  generalize input.takeWhile Char.isDigit = whole at *
  split at h
  case h_1 hd =>
    rw [hd] at hi'
    split at h
    case isTrue => contradiction
    case isFalse hn =>
      let n : Numeral := ⟨sign, whole, none, hs, hw, by simp, by simpa using hn⟩
      exact ⟨n, by simp [n, Numeral.text, hi, ← hi']⟩
  case h_2 fraction hd =>
    rw [hd] at hi'
    split at h
    case isTrue => contradiction
    case isFalse hn =>
      have hf : ∀ c ∈ fraction, c.isDigit := isDigit_of_readFraction h
      have hd : whole ++ (some fraction).getD [] ≠ [] := by
        rw [Option.getD_some, ne_eq, List.append_eq_nil_iff]
        exact fun h => hn h.symm
      let n : Numeral := ⟨sign, whole, some fraction, hs, hw, by simpa using hf, hd⟩
      exact ⟨n, by simp [n, Numeral.text, hi, ← hi']⟩
  case h_3 => contradiction

theorem fromStr_eq_some_iff : fromStr input = some value ↔
    ∃ n : Numeral, n.text = input ∧ n.significant.length ≤ 18 ∧ checked value = some value ∧
      toRat value = n.value where
  mp h := by
    obtain ⟨n, rfl⟩ := exists_numeral h
    rw [fromStr_text] at h
    split at h
    case isFalse => contradiction
    case isTrue hl =>
      obtain ⟨rfl, -⟩ := Int.checked_eq_some_iff.mp h
      exact ⟨n, rfl, hl, h, n.toRat_units hl⟩
  mpr := by
    rintro ⟨n, rfl, hl, hc, hv⟩
    rw [← n.toRat_units hl, toRat_inj] at hv
    rw [fromStr_text, if_pos hl, ← hv, hc]

theorem fromStr_text_eq_some_iff (n : Numeral) :
    fromStr n.text = some x ↔ toRat x = n.value ∧ checked x = some x where
  mp h := by
    rw [fromStr_text] at h
    split at h
    case isFalse => contradiction
    case isTrue hl =>
      obtain ⟨rfl, -⟩ := Int.checked_eq_some_iff.mp h
      exact ⟨n.toRat_units hl, h⟩
  mpr := by
    rintro ⟨hv, hc⟩
    have hl := n.length_significant_le hv
    exact fromStr_eq_some_iff.mpr ⟨n, rfl, hl, hc, hv⟩

-- Exactly the numerals of decimals are read, and printing a decimal is inverse to reading it.
theorem fromStr_spec :
    (∀ value : BitVec 128, fromStr (display value.toInt) = some value.toInt) ∧
      ∀ input value, fromStr input = some value ↔
        ∃ n : Numeral, n.text = input ∧ n.significant.length ≤ 18 ∧ checked value = some value ∧
          toRat value = n.value :=
  ⟨fun value => fromStr_display (checked_toInt value), fun _ _ => fromStr_eq_some_iff⟩

end Decimal

end Datatypes
