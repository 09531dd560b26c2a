import Mathlib

-- Decimal numerals as lists of characters: how they are printed, and how they are read into machine
-- integers whose operations are checked. Nothing in here is specific to RDF storage.

-- The outcome of a checked operation on signed integers of `w` bits.
def Int.checked (w : ℕ) (x : ℤ) : Option ℤ :=
  if -2 ^ (w - 1) ≤ x ∧ x < 2 ^ (w - 1) then some x else none

namespace Int

variable {w : ℕ} {x y : ℤ}

@[simp]
theorem checked_eq_some_iff :
    checked w x = some y ↔ x = y ∧ -2 ^ (w - 1) ≤ y ∧ y < 2 ^ (w - 1) := by
  unfold checked
  split <;> grind

@[simp]
theorem checked_eq_none_iff : checked w x = none ↔ ¬(-2 ^ (w - 1) ≤ x ∧ x < 2 ^ (w - 1)) := by
  simp [checked]

theorem checked_of_mem (h : -2 ^ (w - 1) ≤ x ∧ x < 2 ^ (w - 1)) : checked w x = some x :=
  if_pos h

theorem toInt_ofInt_of_checked (hw : 0 < w) (h : checked w x = some y) :
    (BitVec.ofInt w y).toInt = y := by
  have ⟨_, h₁, h₂⟩ := checked_eq_some_iff.mp h
  exact BitVec.toInt_ofInt_eq_self hw h₁ h₂

theorem checked_toInt (x : BitVec w) : checked w x.toInt = some x.toInt :=
  checked_of_mem ⟨x.le_toInt, x.toInt_lt⟩

-- Checks pass on the way to a number if they pass for the number.
theorem checked_of_between (hl : min 0 y ≤ x) (hu : x ≤ max 0 y) (h : checked w y ≠ none) :
    checked w x = some x := by
  have : (0 : ℤ) < 2 ^ (w - 1) := by positivity
  have : -2 ^ (w - 1) ≤ y ∧ y < 2 ^ (w - 1) := by simpa using h
  apply checked_of_mem
  omega

-- A number of a larger magnitude does not pass a check that a smaller one does not pass.
theorem checked_eq_none_of_le {sign : ℤ} {m n : ℕ} (hs : sign = 1 ∨ sign = -1) (hl : m ≤ n)
    (h : checked w (sign * m) = none) : checked w (sign * n) = none := by
  by_contra hn
  have := checked_of_between (x := sign * m) (by grind) (by grind) hn
  simp [h] at this

end Int

-- The last `width` digits of a number.
def Nat.fixedDigits : ℕ → ℕ → List Char
  | 0, _         => []
  | width + 1, n => fixedDigits width (n / 10) ++ [(n % 10).digitChar]

-- A number with at least `width` digits.
def Nat.padded (width n : ℕ) : List Char := (toDigits 10 n).leftpad width '0'

namespace Nat

variable {width n m : ℕ} {digits rest : List Char}

theorem isDigit_of_mem_fixedDigits (h : c ∈ fixedDigits width n) : c.isDigit := by
  induction width generalizing n with
  | zero => cases h
  | succ width ih =>
    rcases List.mem_append.mp h with h | h
    · exact ih h
    · simp [List.mem_singleton.mp h, Nat.mod_lt]

@[simp]
theorem length_fixedDigits : (fixedDigits width n).length = width := by
  induction width generalizing n <;> simp_all [fixedDigits]

theorem ofDigitChars_fixedDigits : ofDigitChars 10 (fixedDigits width n) 0 = n % 10 ^ width := by
  induction width generalizing n with
  | zero => simp [fixedDigits, Nat.mod_one]
  | succ width ih =>
    have hd : n % 10 < 10 := Nat.mod_lt _ (by decide)
    rw [fixedDigits, ofDigitChars_append, ih, ofDigitChars_cons_digitChar_of_lt_ten hd]
    rw [ofDigitChars_nil, Nat.pow_succ', Nat.mod_mul, Nat.add_comm]

-- A number of more digits is a shorter number followed by its last digits.
theorem toDigits_eq_append (h : 10 ^ width ≤ n) :
    toDigits 10 n = toDigits 10 (n / 10 ^ width) ++ fixedDigits width n := by
  induction width generalizing n with
  | zero => simp [fixedDigits]
  | succ width ih =>
    rw [Nat.pow_succ'] at h ⊢
    have h₁ : 10 ^ width ≤ n / 10 := by rw [Nat.le_div_iff_mul_le (by decide)]; omega
    have h₂ : 10 ≤ n := le_trans (Nat.le_mul_of_pos_right 10 (by positivity)) h
    rw [toDigits_of_base_le (by decide) h₂, ih h₁, fixedDigits, Nat.div_div_eq_div_mul]
    simp

theorem fixedDigits_zero : fixedDigits width 0 = .replicate width '0' := by
  induction width with
  | zero => rfl
  | succ width ih => simp [fixedDigits, ih, List.replicate_succ']

theorem padded_eq_fixedDigits (h : n < 10 ^ width) (hw : 0 < width) :
    padded width n = fixedDigits width n := by
  induction width generalizing n with
  | zero => contradiction
  | succ width ih =>
    rw [padded, fixedDigits]
    by_cases hn : n < 10
    case pos =>
      rw [Nat.div_eq_of_lt hn, Nat.mod_eq_of_lt hn, fixedDigits_zero, toDigits_of_lt_base hn]
      simp [List.leftpad]
    case neg =>
      have hw : 0 < width := by
        rcases width with _ | width
        · omega
        · exact width.succ_pos
      rw [toDigits_of_base_le (by decide) (by omega), ← ih (by omega) hw, padded]
      simp [List.leftpad]

theorem isDigit_of_mem_padded (h : c ∈ padded width n) : c.isDigit := by
  rw [padded, List.leftpad, List.mem_append, List.mem_replicate] at h
  rcases h with ⟨_, rfl⟩ | h
  · rfl
  · exact isDigit_of_mem_toDigits (by decide) (by decide) h

theorem ofDigitChars_padded : ofDigitChars 10 (padded width n) 0 = n := by
  rw [padded, List.leftpad, ofDigitChars_append, ofDigitChars_replicate_zero]
  rw [Nat.mul_zero, ofDigitChars_ten_toDigits]

theorem le_length_padded : width ≤ (padded width n).length := by
  simp [padded, List.leftpad]
  omega

theorem padded_ne_nil (h : 0 < width) : padded width n ≠ [] := by
  intro h₀
  have hl : width ≤ (padded width n).length := le_length_padded
  simp [h₀] at hl
  omega

-- A numeral without padding does not start with a zero.
theorem head?_toDigits_ne (hn : 0 < n) : (toDigits 10 n).head? ≠ some '0' := by
  induction n using Nat.strongRecOn with
  | ind n ih =>
    by_cases h : n < 10
    case pos =>
      rw [toDigits_of_lt_base h]
      simp
      omega
    case neg =>
      have hd := ih (n / 10) (by omega) (by omega)
      rw [toDigits_of_base_le (by decide) (by omega)]
      rcases hl : toDigits 10 (n / 10) with _ | ⟨c, cs⟩
      · exact absurd hl toDigits_ne_nil
      · simpa [hl] using hd

theorem head?_padded_ne (hw : 0 < width) (h : width < (padded width n).length) :
    (padded width n).head? ≠ some '0' := by
  have hl : width < (toDigits 10 n).length := by
    simp [padded, List.leftpad] at h
    omega
  have hn : 0 < n := by
    by_contra h₀
    have : n = 0 := by omega
    subst this
    simp at hl
    omega
  have hp : padded width n = toDigits 10 n := by
    simp [padded, List.leftpad, Nat.sub_eq_zero_of_le hl.le]
  rw [hp]
  exact head?_toDigits_ne hn

theorem le_ofDigitChars : n ≤ ofDigitChars 10 digits n := by
  induction digits generalizing n with
  | nil => simp
  | cons c digits ih =>
    rw [ofDigitChars_cons]
    exact le_trans (by omega) ih

theorem eq_zero_iff_of_isDigit (hd : ∀ c ∈ digits, c.isDigit) :
    (∀ c ∈ digits, c = '0') ↔ ofDigitChars 10 digits 0 = 0 where
  mp h := by
    rw [List.eq_replicate_of_mem h, ofDigitChars_replicate_zero, Nat.mul_zero]
  mpr h := by
    induction digits with
    | nil => simp
    | cons c digits ih =>
      have ⟨hc, hd⟩ := List.forall_mem_cons.mp hd
      rw [ofDigitChars_cons, ofDigitChars_eq_ofDigitChars_zero] at h
      have ⟨h₁, h₂⟩ := Nat.add_eq_zero_iff.mp h
      have h₁ : 10 * 0 + (c.toNat - '0'.toNat) = 0 := by simpa using h₁
      have hc : c = '0' := by
        rw [← Char.toNat_inj]
        have := Char.isDigit_iff_toNat.mp hc
        omega
      exact List.forall_mem_cons.mpr ⟨hc, ih hd h₂⟩

end Nat

-- The rest of the input does not continue a numeral.
def NoDigit (rest : List Char) : Prop := rest.head?.all (! ·.isDigit)

theorem noDigit_cons {c : Char} (h : ¬c.isDigit) : NoDigit (c :: rest) := by
  simpa [NoDigit] using h

theorem head?_append_ne {c : Char} {digits rest : List Char} (hd : ∀ c ∈ digits, c.isDigit)
    (hn : digits ≠ []) (hc : ¬c.isDigit) : (digits ++ rest).head? ≠ some c := by
  rcases digits with _ | ⟨d, digits⟩
  case nil => exact absurd rfl hn
  case cons =>
    rintro h
    cases h
    exact hc (hd _ (by simp))

-- The digits at the start of the input.
theorem List.span_isDigit {digits rest : List Char} (hd : ∀ c ∈ digits, c.isDigit)
    (hr : NoDigit rest) : (digits ++ rest).span Char.isDigit = (digits, rest) := by
  rw [span_eq_takeWhile_dropWhile, takeWhile_append_of_pos hd, dropWhile_append_of_pos hd]
  cases rest <;> simp_all [NoDigit]

theorem List.rdropWhile_append_replicate [DecidableEq α] (a : α) (l : List α) :
    l.rdropWhile (· = a) ++ .replicate (l.length - (l.rdropWhile (· = a)).length) a = l := by
  have h : l.rdropWhile (· = a) ++ l.rtakeWhile (· = a) = l := rdropWhile_append_rtakeWhile
  have hz : ∀ b ∈ l.rtakeWhile (· = a), b = a := fun b hb => by simpa using mem_rtakeWhile_imp hb
  have hl := congrArg length h
  rw [length_append] at hl
  rw [Nat.sub_eq_of_eq_add' hl.symm, ← eq_replicate_of_mem hz, h]

-- Appends digits to a number of the given sign.
def readDigits (w : ℕ) (sign value : ℤ) (digits : List Char) : Option ℤ :=
  digits.foldlM (fun value c => do
    Int.checked w ((← Int.checked w (value * 10)) + sign * (c.toNat - '0'.toNat : ℕ))) value

theorem readDigits_eq {n : ℕ} (hs : sign = 1 ∨ sign = -1) (hn : Int.checked w (sign * n) ≠ none) :
    readDigits w sign (sign * n) digits = Int.checked w (sign * Nat.ofDigitChars 10 digits n) := by
  induction digits generalizing n with
  | nil =>
    have : Int.checked w (sign * n) = some (sign * n) := Int.checked_of_mem (by simpa using hn)
    simp [readDigits, this]
  | cons c digits ih =>
    set m := 10 * n + (c.toNat - '0'.toNat) with hm
    have hd : m ≤ Nat.ofDigitChars 10 digits m := Nat.le_ofDigitChars
    have hstep : sign * n * 10 + sign * (c.toNat - '0'.toNat : ℕ) = sign * m := by
      rw [hm]
      push_cast
      ring
    rw [Nat.ofDigitChars_cons, ← hm]
    simp only [readDigits, List.foldlM_cons]
    cases h : Int.checked w (sign * m)
    case some value =>
      -- The digit is appended without an overflow.
      obtain ⟨rfl, -⟩ := Int.checked_eq_some_iff.mp h
      have h₁ : Int.checked w (sign * n * 10) = some (sign * n * 10) := by
        apply Int.checked_of_between (y := sign * m) <;> grind
      simp only [h₁, hstep, h, Option.bind_eq_bind, Option.bind_some]
      exact ih (by simp [h])
    case none =>
      -- All numbers that follow are even larger.
      rw [Int.checked_eq_none_of_le hs hd h]
      cases h₁ : Int.checked w (sign * n * 10)
      case none => rfl
      case some value =>
        obtain ⟨rfl, -⟩ := Int.checked_eq_some_iff.mp h₁
        simp only [Option.bind_eq_bind, Option.bind_some, Option.bind_none, hstep, h]
