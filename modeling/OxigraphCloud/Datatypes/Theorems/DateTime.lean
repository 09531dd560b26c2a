import OxigraphCloud.Datatypes.Theorems.Calendar
import OxigraphCloud.Datatypes.Theorems.Numeric

namespace Datatypes

namespace Frag

theorem bind_of {p : Frag α} (h : p input = some (a, rest)) (f : α → Frag β) :
    (p >>= f) input = f a rest := by
  simp [bind, StateT.bind, h]

theorem guard_of [Decidable c] (h : c) (f : Unit → Frag β) :
    (guard c >>= f) input = f () input := by
  rw [guard, if_pos h]
  rfl

theorem liftM_of {o : Option α} (h : o = some a) (f : α → Frag β) :
    (liftM o >>= f) input = f a input := by
  rw [h]
  rfl

theorem liftM_eq (o : Option α) : (liftM o : Frag α) input = o.map (·, input) := by
  cases o <;> rfl

end Frag

open Frag

theorem expectChar_cons (c : Char) (rest : List Char) (f : Unit → Frag α) :
    (expectChar c >>= f) (c :: rest) = f () rest :=
  Frag.bind_of (by simp [expectChar]) f

theorem integerPrefix_of (hd : ∀ c ∈ digits, c.isDigit) (hr : NoDigit rest) :
    integerPrefix (digits ++ rest) = some (digits, rest) := by
  rw [integerPrefix, List.span_isDigit hd hr]

theorem twoDigitFrag_padded (hl : lower ≤ n) (hu : n ≤ upper) (hn : n < 100) (hr : NoDigit rest) :
    twoDigitFrag lower upper (Nat.padded 2 n ++ rest) = some (n, rest) := by
  have hp : Nat.padded 2 n = Nat.fixedDigits 2 n := Nat.padded_eq_fixedDigits hn (by decide)
  unfold twoDigitFrag
  rw [Frag.bind_of (integerPrefix_of (fun _ => Nat.isDigit_of_mem_padded) hr),
    Frag.guard_of (by simp [hp])]
  simp only [Nat.ofDigitChars_padded]
  rw [Frag.guard_of ⟨hl, hu⟩]
  rfl

theorem stripChar_self (c : Char) (rest : List Char) :
    stripChar c (c :: rest) = some (true, rest) := by
  simp [stripChar]

theorem stripChar_of_ne (h : rest.head? ≠ some c) : stripChar c rest = some (false, rest) := by
  cases rest <;> simp_all [stripChar]

-- The text that a sign and a number start with.
theorem stripChar_printSign (hd : ∀ c ∈ digits, c.isDigit) (hn : digits ≠ []) :
    stripChar '-' (printSign y ++ (digits ++ rest)) = some (decide (y < 0), digits ++ rest) := by
  unfold printSign
  split
  case isTrue h => simp [stripChar_self, h]
  case isFalse h =>
    rw [List.nil_append, stripChar_of_ne (head?_append_ne hd hn (by decide)), decide_eq_false h]

theorem yearFrag_of (hy : Int.checked 64 y.natAbs ≠ none) (hr : NoDigit rest) :
    yearFrag (printSign y ++ (Nat.padded 4 y.natAbs ++ rest)) = some (y, rest) := by
  have hd : ∀ c ∈ Nat.padded 4 y.natAbs, c.isDigit := fun _ => Nat.isDigit_of_mem_padded
  have hn : Nat.padded 4 y.natAbs ≠ [] := Nat.padded_ne_nil (by decide)
  have hz : ¬(4 < (Nat.padded 4 y.natAbs).length ∧ (Nat.padded 4 y.natAbs).head? = some '0') :=
    fun ⟨hl, h₀⟩ => Nat.head?_padded_ne (by decide) hl h₀
  have hi : Integer.fromStr 64 (Nat.padded 4 y.natAbs) = some (y.natAbs : ℤ) := by
    have h : Integer.fromStr 64 (printSign 0 ++ Nat.padded 4 y.natAbs) =
      Int.checked 64 (signOf 0 * Nat.ofDigitChars 10 (Nat.padded 4 y.natAbs) 0) :=
        Integer.fromStr_printSign hd hn
    rw [Nat.ofDigitChars_padded, show signOf 0 = 1 from rfl, one_mul] at h
    exact h.trans <| Int.checked_of_mem (by simpa using hy)
  unfold yearFrag
  rw [Frag.bind_of (stripChar_printSign hd hn), Frag.bind_of (integerPrefix_of hd hr),
    Frag.guard_of Nat.le_length_padded, Frag.guard_of hz, Frag.liftM_of hi]
  have hy : (if decide (y < 0) then -(y.natAbs : ℤ) else y.natAbs) = y := by
    rcases lt_or_ge y 0 with h | h
    · rw [if_pos (decide_eq_true h)]
      omega
    · rw [if_neg (by simpa using h)]
      omega
  rw [hy]
  rfl

-- The input does not continue a decimal number.
def NoDecimal (rest : List Char) : Prop := NoDigit rest ∧ rest.head? ≠ some '.'

theorem splitDecimal_digits (hd : ∀ c ∈ digits, c.isDigit)
    (h : splitDecimal dotSeen rest = (n, r)) :
    splitDecimal dotSeen (digits ++ rest) = (digits ++ n, r) := by
  induction digits with
  | nil => exact h
  | cons c digits ih =>
    have ⟨hc, hd⟩ := List.forall_mem_cons.mp hd
    simp [splitDecimal, hc, ih hd]

theorem splitDecimal_of (hr : NoDecimal rest) : splitDecimal dotSeen rest = ([], rest) := by
  rcases rest with _ | ⟨c, rest⟩
  case nil => rfl
  case cons =>
    have ⟨h₁, h₂⟩ := hr
    simp_all [splitDecimal, NoDigit]

theorem splitDecimal_fraction (hd : ∀ c ∈ digits, c.isDigit) (hr : NoDecimal rest) :
    splitDecimal false (digits ++ (Decimal.fraction n ++ rest)) =
      (digits ++ Decimal.fraction n, rest) := by
  apply splitDecimal_digits hd
  unfold Decimal.fraction
  split
  case isTrue => exact splitDecimal_of hr
  case isFalse =>
    have hs : splitDecimal true rest = ([], rest) := splitDecimal_of hr
    have h := splitDecimal_digits (fun _ => Decimal.isDigit_of_mem_fractionDigits (n := n)) hs
    simp [splitDecimal, h]

theorem padded_two_eq (n : ℕ) :
    Nat.padded 2 n = (if n < 10 then ['0'] else []) ++ Nat.toDigits 10 n := by
  have hl : (Nat.toDigits 10 n).length ≤ 1 ↔ n < 10 ^ 1 :=
    Nat.length_toDigits_le_iff (by decide) (by decide)
  unfold Nat.padded List.leftpad
  split
  case isTrue h => simp [Nat.toDigits_of_lt_base h]
  case isFalse h => rw [Nat.sub_eq_zero_of_le (by omega)]; rfl

-- The seconds are printed with two digits before the dot.
theorem displaySecond_eq (h₀ : 0 ≤ s) :
    (if -10 * Decimal.decimalPartPow < s ∧ s < 10 * Decimal.decimalPartPow then ['0'] else []) ++
      Decimal.display s = Nat.padded 2 (s.natAbs / 10 ^ 18) ++ Decimal.fraction s.natAbs := by
  have hs : printSign s = [] := if_neg (by omega)
  rw [Decimal.display_eq, padded_two_eq, hs, List.nil_append, List.append_assoc]
  congr 1
  have : s.natAbs / 10 ^ 18 < 10 ↔ s < 10 * Decimal.decimalPartPow := by
    unfold Decimal.decimalPartPow
    omega
  have hm : -10 * Decimal.decimalPartPow < s := by
    unfold Decimal.decimalPartPow
    omega
  simp only [this, hm, true_and]

theorem fractionDigits_ne_nil (h : n % 10 ^ 18 ≠ 0) : Decimal.fractionDigits n ≠ [] := by
  intro h₀
  have hz := List.rdropWhile_eq_nil_iff.mp h₀
  exact h <| Decimal.fixedDigits_eq_zeros_iff.mp (by simpa using hz)

theorem getLast?_ne_of_isDigit {c : Char} {digits : List Char} (hd : ∀ c ∈ digits, c.isDigit)
    (hc : ¬c.isDigit) :
    digits.getLast? ≠ some c :=
  fun h => hc <| hd c <| List.mem_of_getLast? h

theorem getLast?_fraction_ne (hd : ∀ c ∈ digits, c.isDigit) :
    (digits ++ Decimal.fraction n).getLast? ≠ some '.' := by
  unfold Decimal.fraction
  split
  case isTrue =>
    rw [List.append_nil]
    exact getLast?_ne_of_isDigit hd (by decide)
  case isFalse h =>
    rw [List.append_cons, List.getLast?_append_of_ne_nil _ (fractionDigits_ne_nil h)]
    exact getLast?_ne_of_isDigit (fun _ => Decimal.isDigit_of_mem_fractionDigits) (by decide)

theorem takeWhile_fraction (hd : ∀ c ∈ digits, c.isDigit) :
    (digits ++ Decimal.fraction n).takeWhile (· ≠ '.') = digits := by
  have hne (c) (hc : c ∈ digits) : decide (c ≠ '.') = true := by
    have := hd c hc
    rw [decide_eq_true_eq]
    rintro rfl
    contradiction
  rw [List.takeWhile_append_of_pos hne]
  unfold Decimal.fraction
  split <;> simp

theorem secondFrag_of (h₀ : 0 ≤ s) (h : s < 60 * Decimal.decimalPartPow) (hr : NoDecimal rest) :
    secondFrag (Nat.padded 2 (s.natAbs / 10 ^ 18) ++ (Decimal.fraction s.natAbs ++ rest)) =
      some (s, rest) := by
  have hd : ∀ c ∈ Nat.padded 2 (s.natAbs / 10 ^ 18), c.isDigit :=
    fun _ => Nat.isDigit_of_mem_padded
  have hn : Nat.padded 2 (s.natAbs / 10 ^ 18) ≠ [] := Nat.padded_ne_nil (by decide)
  have hp :
      decimalPrefix (Nat.padded 2 (s.natAbs / 10 ^ 18) ++ (Decimal.fraction s.natAbs ++ rest)) =
      some (Nat.padded 2 (s.natAbs / 10 ^ 18) ++ Decimal.fraction s.natAbs, rest) := by
    rw [decimalPrefix, splitDecimal_fraction hd hr]
  have hf : Decimal.fromStr (Nat.padded 2 (s.natAbs / 10 ^ 18) ++ Decimal.fraction s.natAbs) =
      some s := by
    have hf : Decimal.fromStr (printSign 0 ++ _ ++ Decimal.fraction s.natAbs) = _ :=
      Decimal.fromStr_numeral hd hn
    rw [Nat.ofDigitChars_padded, Nat.div_add_mod', show signOf 0 = 1 from rfl, one_mul,
      Int.natAbs_of_nonneg h₀] at hf
    refine hf.trans <| Int.checked_of_mem ?_
    unfold Decimal.decimalPartPow at h
    omega
  have hl : (Nat.padded 2 (s.natAbs / 10 ^ 18)).length = 2 := by
    unfold Decimal.decimalPartPow at h
    rw [Nat.padded_eq_fixedDigits (by omega) (by decide), Nat.length_fixedDigits]
  unfold secondFrag
  rw [Frag.bind_of hp, Frag.guard_of (by rw [takeWhile_fraction hd, hl]), Frag.liftM_of hf,
    Frag.guard_of ⟨h₀, h⟩, Frag.guard_of (getLast?_fraction_ne hd)]
  rfl

theorem signFrag_of (negative : Bool) (f : Bool → Frag α) :
    (signFrag >>= f) ((if negative then '-' else '+') :: rest) = f negative rest := by
  apply Frag.bind_of
  cases negative <;> rfl

theorem timezoneFrag_of (h : -840 ≤ offset ∧ offset ≤ 840) :
    timezoneFrag (TimezoneOffset.display offset) = some (offset, []) := by
  unfold TimezoneOffset.display
  split
  case isTrue h₀ =>
    subst h₀
    rfl
  case isFalse h₀ =>
    set n := offset.natAbs with hn
    have hc : (if offset < 0 then '-' else '+') = if decide (offset < 0) then '-' else '+' := by
      simp
    have hz : (if decide (offset < 0) then '-' else '+') ≠ 'Z' := by split <;> decide
    have hp : (Nat.padded 2 (n / 60)).length = 2 := by
      rw [Nat.padded_eq_fixedDigits (by omega) (by decide), Nat.length_fixedDigits]
    have hm : minuteFrag (Nat.padded 2 (n % 60)) = some (n % 60, []) := by
      have h : twoDigitFrag 0 59 (Nat.padded 2 (n % 60) ++ []) = _ :=
        twoDigitFrag_padded (by omega) (by omega) (by omega) rfl
      rwa [List.append_nil] at h
    rw [hc, List.cons_append]
    unfold timezoneFrag
    rw [Frag.bind_of (stripChar_of_ne (by simpa using hz))]
    simp only [Bool.false_eq_true, ↓reduceIte]
    rw [signFrag_of, Frag.bind_of (integerPrefix_of (fun _ => Nat.isDigit_of_mem_padded)
      (noDigit_cons (by decide))),
      Frag.guard_of hp]
    simp only [Nat.ofDigitChars_padded]
    rw [expectChar_cons, Frag.bind_of hm, Frag.guard_of (by omega), Frag.liftM_eq]
    have ho : (if decide (offset < 0) then -((n / 60 : ℕ) * 60 + (n % 60 : ℕ) : ℤ) else
        ((n / 60 : ℕ) * 60 + (n % 60 : ℕ) : ℤ)) = offset := by
      rcases lt_or_ge offset 0 with h | h
      · rw [if_pos (decide_eq_true h)]
        omega
      · rw [if_neg (by simpa using h)]
        omega
    rw [ho, TimezoneOffset.new, if_pos (by omega)]
    rfl

end Datatypes

namespace Timestamp

open Datatypes

variable {t : Timestamp}

-- The offsets that parsers accept.
def ValidOffset (t : Timestamp) : Prop :=
  ∀ offset ∈ t.timezoneOffset, -840 ≤ offset.toInt ∧ offset.toInt ≤ 840

theorem noDecimal_displayTimezone (t : Timestamp) : NoDecimal (displayTimezone t) := by
  unfold displayTimezone
  rcases t.timezoneOffset with _ | offset
  case none => exact ⟨rfl, by simp⟩
  case some =>
    simp only [Option.elim, TimezoneOffset.display]
    split
    case isTrue => exact ⟨rfl, by simp⟩
    case isFalse => split <;> exact ⟨noDigit_cons (by decide), by simp⟩

theorem optionalEnd_of (ho : t.ValidOffset) :
    optionalEnd timezoneFrag (displayTimezone t) = some (t.timezoneOffset.map (·.toInt), []) := by
  unfold displayTimezone
  rcases h : t.timezoneOffset with _ | offset
  case none => rfl
  case some =>
    have hn : TimezoneOffset.display offset.toInt ≠ [] := by
      unfold TimezoneOffset.display
      split <;> simp
    simp [optionalEnd, hn, Functor.map, StateT.map, timezoneFrag_of (ho _ h)]

theorem second_nonneg (t : Timestamp) : 0 ≤ t.second := abs_nonneg _

theorem second_eq (t : Timestamp) : t.second = t.value.toInt % (60 * Decimal.decimalPartPow) :=
  abs_of_nonneg <| Int.emod_nonneg _ (by decide)

theorem second_lt (t : Timestamp) : t.second < 60 * Decimal.decimalPartPow := by
  rw [second_eq]
  exact Int.emod_lt_of_pos _ (by decide)

theorem hour_lt (t : Timestamp) : t.hour < 24 := by
  unfold hour
  omega

theorem minute_lt (t : Timestamp) : t.minute < 60 := by
  unfold minute
  omega

theorem timeFrag_of (hr : NoDecimal rest) :
    timeFrag (displayTime t ++ rest) = some ((t.hour, t.minute, t.second), rest) := by
  have hs := displaySecond_eq t.second_nonneg
  have hh := t.hour_lt
  have hm := t.minute_lt
  have hd : displayTime t ++ rest = Nat.padded 2 t.hour ++ ':' :: (Nat.padded 2 t.minute ++ ':' ::
      (Nat.padded 2 (t.second.natAbs / 10 ^ 18) ++
        (Decimal.fraction t.second.natAbs ++ rest))) := by
    unfold displayTime
    simp only [List.append_assoc, List.cons_append]
    rw [← List.append_assoc _ (Decimal.fraction _) rest, ← hs]
    simp
  rw [hd]
  unfold timeFrag hourFrag minuteFrag
  rw [Frag.bind_of
    (twoDigitFrag_padded (by omega) (by omega) (by omega) (noDigit_cons (by decide))),
    expectChar_cons,
    Frag.bind_of (twoDigitFrag_padded (by omega) (by omega) (by omega) (noDigit_cons (by decide))),
    expectChar_cons, Frag.bind_of (secondFrag_of t.second_nonneg t.second_lt hr),
    Frag.guard_of (by omega)]
  rfl

end Timestamp
