import OxigraphCloud.Datatypes.Theorems.Fragments
import OxigraphCloud.Datatypes.Theorems.Numeral

-- The unsigned decimals that the parsers of times and durations read.
namespace Datatypes

open Lexical

-- Digits with a dot that more digits may come after.
structure IsDecimal (whole : List ℕ) (digits : Option (List ℕ)) : Prop where
  whole_le_nine  : ∀ d ∈ whole, d ≤ 9
  digits_le_nine : ∀ d ∈ digits.getD [], d ≤ 9

def decimalText (whole : List ℕ) (digits : Option (List ℕ)) : List Char :=
  whole.map Nat.digitChar ++ digits.elim [] ('.' :: ·.map Nat.digitChar)

-- The language of `decimal_prefix`.
def decimalFrag : Lexical (List Char) := fun word text =>
  text = word ∧ ∃ whole digits, word = decimalText whole digits ∧ IsDecimal whole digits

theorem splitDecimal_true_sound (h : splitDecimal true input = (number, rest)) :
    ∃ digits : List ℕ, number = digits.map Nat.digitChar ∧ (∀ d ∈ digits, d ≤ 9) ∧
      input = number ++ rest ∧ NoDigit rest := by
  induction input generalizing number with
  | nil =>
    cases h
    exact ⟨[], rfl, by simp, rfl, rfl⟩
  | cons c input ih =>
    simp only [splitDecimal, Bool.not_true, Bool.false_eq_true, and_false, ↓reduceIte] at h
    split at h
    case isTrue hc =>
      obtain ⟨d, hd, rfl⟩ := exists_digitChar hc
      cases h
      obtain ⟨digits, hn, hds, hi, hr⟩ := ih rfl
      exact ⟨d :: digits, by rw [hn]; rfl, by simpa using ⟨hd, hds⟩, by nth_rewrite 1 [hi]; rfl, hr⟩
    case isFalse hc =>
      cases h
      exact ⟨[], rfl, by simp, rfl, noDigit_cons hc⟩

theorem splitDecimal_false_sound (h : splitDecimal false input = (number, rest)) :
    ∃ whole digits, number = decimalText whole digits ∧ IsDecimal whole digits ∧
      input = number ++ rest ∧ NoDigit rest := by
  induction input generalizing number with
  | nil =>
    cases h
    exact ⟨[], none, rfl, ⟨by simp, by simp⟩, rfl, rfl⟩
  | cons c input ih =>
    simp only [splitDecimal, Bool.not_false, and_true] at h
    split at h
    case isTrue hc =>
      obtain ⟨d, hd, rfl⟩ := exists_digitChar hc
      cases h
      obtain ⟨whole, digits, hn, ⟨hw, hds⟩, hi, hr⟩ := ih rfl
      exact ⟨d :: whole, digits, by rw [hn]; rfl, ⟨by simpa using ⟨hd, hw⟩, hds⟩,
        by nth_rewrite 1 [hi]; rfl, hr⟩
    case isFalse hc =>
      split at h
      case isTrue hdot =>
        subst hdot
        cases h
        obtain ⟨digits, hn, hds, hi, hr⟩ := splitDecimal_true_sound rfl
        exact ⟨[], some digits, by rw [hn]; rfl, ⟨by simp, hds⟩, by nth_rewrite 1 [hi]; rfl, hr⟩
      case isFalse =>
        cases h
        exact ⟨[], none, rfl, ⟨by simp, by simp⟩, rfl, noDigit_cons hc⟩

theorem decimalPrefix_reads : Reads decimalPrefix decimalFrag NoDecimal where
  sound := by
    intro input text rest h
    obtain ⟨whole, digits, hn, hd, hi, -⟩ := splitDecimal_false_sound (Option.some.inj h)
    exact ⟨text, hi, rfl, whole, digits, hn, hd⟩
  complete := by
    rintro _ _ rest ⟨rfl, whole, digits, rfl, hw, hd⟩ hr
    rw [decimalPrefix, decimalText, List.append_assoc]
    congr 1
    apply splitDecimal_digits (isDigit_digitChars hw)
    cases digits
    case none => exact splitDecimal_of hr
    case some digits =>
      have hs : splitDecimal true rest = ([], rest) := splitDecimal_of hr
      have h := splitDecimal_digits (isDigit_digitChars hd) hs
      rw [Option.getD_some, List.append_nil] at h
      simp [splitDecimal, h]

namespace Grammar

theorem fraction_mem {digits : List ℕ} (h : ∀ d ∈ digits, d ≤ 9) :
    0 ≤ fraction digits ∧ fraction digits < 1 := by
  induction digits with
  | nil => simp [fraction]
  | cons d digits ih =>
    obtain ⟨hd, h⟩ := List.forall_mem_cons.mp h
    obtain ⟨hl, hu⟩ := ih h
    have hd : (d : ℚ) ≤ 9 := by exact_mod_cast hd
    have he : fraction (d :: digits) = (d + fraction digits) / 10 := rfl
    rw [he]
    constructor
    · positivity
    · linarith

theorem foldl_div_pow (digits : List ℕ) (n : ℕ) :
    ((digits.foldl (10 * · + ·) n : ℕ) : ℚ) / 10 ^ digits.length = n + fraction digits := by
  induction digits generalizing n with
  | nil => simp [fraction]
  | cons d digits ih =>
    have he : fraction (d :: digits) = (d + fraction digits) / 10 := rfl
    rw [List.foldl_cons, List.length_cons, pow_succ, ← div_div, ih, he]
    push_cast
    ring

end Grammar

-- The numeral of an unsigned decimal.
def IsDecimal.numeral (h : IsDecimal whole digits) (hn : whole ++ digits.getD [] ≠ []) :
    Numeral where
  sign             := []
  whole            := whole.map Nat.digitChar
  fraction         := digits.map (·.map Nat.digitChar)
  mem_signs        := by simp
  isDigit_whole    := isDigit_digitChars h.whole_le_nine
  isDigit_fraction := by
    cases digits
    case none => simp
    case some => simpa using isDigit_digitChars h.digits_le_nine
  digits_ne_nil    := by cases digits <;> simpa using hn

theorem IsDecimal.text_numeral (h : IsDecimal whole digits) (hn : whole ++ digits.getD [] ≠ []) :
    (h.numeral hn).text = decimalText whole digits := by
  cases digits <;> rfl

theorem IsDecimal.value_numeral (h : IsDecimal whole digits) (hn : whole ++ digits.getD [] ≠ []) :
    (h.numeral hn).value = Grammar.number whole + Grammar.fraction (digits.getD []) := by
  have hd : (digits.map (·.map Nat.digitChar)).getD [] = (digits.getD []).map Nat.digitChar := by
    cases digits <;> rfl
  have h₉ : ∀ d ∈ whole ++ digits.getD [], d ≤ 9 :=
    List.forall_mem_append.mpr ⟨h.whole_le_nine, h.digits_le_nine⟩
  have hv : (h.numeral hn).value = Nat.ofDigitChars 10 (whole.map Nat.digitChar ++
      (digits.map (·.map Nat.digitChar)).getD []) 0 /
        10 ^ ((digits.map (·.map Nat.digitChar)).getD []).length := by
    rw [Numeral.value, Numeral.signum, if_neg (by simp [numeral]), Int.cast_one, one_mul]
    rfl
  rw [hv, hd, ← List.map_append, ofDigitChars_digitChars h₉, List.length_map, List.foldl_append,
    Grammar.foldl_div_pow]
  rfl

theorem fromStr_decimalText (h : IsDecimal whole digits) (hn : whole ++ digits.getD [] ≠ []) :
    Decimal.fromStr (decimalText whole digits) = some x ↔
      Decimal.toRat x = Grammar.number whole + Grammar.fraction (digits.getD []) ∧
        Decimal.checked x = some x := by
  rw [← h.text_numeral hn, Decimal.fromStr_text_eq_some_iff, h.value_numeral hn]

theorem takeWhile_decimalText (h : IsDecimal whole digits) :
    (decimalText whole digits).takeWhile (· ≠ '.') = whole.map Nat.digitChar := by
  have hne (c) (hc : c ∈ whole.map Nat.digitChar) : decide (c ≠ '.') = true := by
    have := isDigit_digitChars h.whole_le_nine c hc
    rw [decide_eq_true_eq]
    rintro rfl
    contradiction
  rw [decimalText, List.takeWhile_append_of_pos hne]
  cases digits <;> simp

theorem getLast?_decimalText (h : IsDecimal whole digits) :
    (decimalText whole digits).getLast? ≠ some '.' ↔ digits ≠ some [] where
  mp := by
    rintro hl rfl
    simp [decimalText] at hl
  mpr hn := by
    rcases digits with _ | digits
    case none =>
      rw [decimalText, Option.elim_none, List.append_nil]
      exact getLast?_ne_of_isDigit (isDigit_digitChars h.whole_le_nine) (by decide)
    case some =>
      rw [decimalText, Option.elim_some, List.append_cons,
        List.getLast?_append_of_ne_nil _ (by simpa using hn)]
      exact getLast?_ne_of_isDigit (isDigit_digitChars h.digits_le_nine) (by decide)

theorem dotDigits_iff {digits : Option (List ℕ)} :
    opt (char '.' >>= fun _ => plus (digit lower upper)) word digits ↔
      word = digits.elim [] ('.' :: ·.map Nat.digitChar) ∧ digits ≠ some [] ∧
        ∀ d ∈ digits.getD [], lower ≤ d ∧ d ≤ upper := by
  rcases digits with _ | digits
  case none => simp [opt]
  case some =>
    simp only [opt, char_bind_iff, plus_digit_iff, Option.elim_some, Option.getD_some, ne_eq,
      Option.some.injEq]
    constructor
    · rintro ⟨_, rfl, hn, rfl, hd⟩
      exact ⟨rfl, hn, hd⟩
    · rintro ⟨rfl, hn, hd⟩
      exact ⟨_, rfl, hn, rfl, hd⟩

theorem Grammar.secondFrag_iff : secondFrag word v ↔
    ∃ a b digits, a ≤ 5 ∧ IsDecimal [a, b] digits ∧ digits ≠ some [] ∧
      word = decimalText [a, b] digits ∧ v = number [a, b] + fraction (digits.getD []) := by
  rw [secondFrag, twoDigits_eq]
  constructor
  · rintro ⟨_, _, _, rfl, ⟨a, b, rfl, rfl, ha, hb⟩, word, _, digits, rfl, hd, rfl, rfl⟩
    obtain ⟨rfl, hn, hd⟩ := dotDigits_iff.mp hd
    have h₉ : IsDecimal [a, b] digits := ⟨by simp; omega, fun d h => (hd d h).2⟩
    exact ⟨a, b, digits, ha.2, h₉, hn, by simp [decimalText], by simp [number]⟩
  · rintro ⟨a, b, digits, ha, h₉, hn, rfl, rfl⟩
    have hd := dotDigits_iff.mpr ⟨rfl, hn, fun d h => ⟨Nat.zero_le d, h₉.digits_le_nine d h⟩⟩
    exact ⟨_, _, _, rfl, ⟨a, b, rfl, rfl, ⟨by omega, ha⟩, by omega, h₉.whole_le_nine b (by simp)⟩,
      _, [], digits, (List.append_nil _).symm, hd, rfl, by simp [number]⟩

theorem number_pair (a b : ℕ) : Grammar.number [a, b] = 10 * a + b := by simp [Grammar.number]

theorem Decimal.toRat_lt_natCast_iff {n : ℕ} : toRat x < n ↔ x < n * decimalPartPow := by
  have hp : (0 : ℚ) < (decimalPartPow : ℤ) := by simp [decimalPartPow]
  rw [toRat, div_lt_iff₀ hp]
  exact_mod_cast Iff.rfl

theorem Decimal.natCast_le_toRat_iff {n : ℕ} : n ≤ toRat x ↔ n * decimalPartPow ≤ x := by
  rw [← not_lt, toRat_lt_natCast_iff, not_lt]

theorem secondFrag_reads :
    Reads secondFrag (comap Decimal.toRat Grammar.secondFrag) NoDecimal := by
  have h : Reads secondFrag (do
      let digits ← decimalFrag
      require ((digits.takeWhile (· ≠ '.')).length = 2)
      let number ← given (Decimal.fromStr digits)
      require (0 ≤ number ∧ number < 60 * Decimal.decimalPartPow)
      require (digits.getLast? ≠ some '.')
      return number) NoDecimal :=
    decimalPrefix_reads.bind (fun _ => .guard_bind <| .given_bind fun _ => .guard_bind <|
      .guard_bind <| .pure _) (by simp_all)
  apply h.congr
  intro word x
  rw [bind_iff, comap, Grammar.secondFrag_iff]
  simp only [require_bind_iff, given_bind_iff, pure_iff]
  constructor
  · rintro ⟨_, _, _, rfl, ⟨rfl, whole, digits, rfl, h₉⟩, hl, number, hn, hb, hd, rfl, rfl⟩
    rw [takeWhile_decimalText h₉, List.length_map, List.length_eq_two] at hl
    obtain ⟨a, b, rfl⟩ := hl
    rw [fromStr_decimalText h₉ (by simp)] at hn
    have hf := (Grammar.fraction_mem h₉.digits_le_nine).1
    refine ⟨a, b, digits, ?_, h₉, (getLast?_decimalText h₉).mp hd, List.append_nil _, hn.1⟩
    have h₆₀ : Decimal.toRat x < (60 : ℕ) :=
      Decimal.toRat_lt_natCast_iff.mpr (by exact_mod_cast hb.2)
    rw [hn.1, number_pair] at h₆₀
    have : ((10 * a + b : ℕ) : ℚ) < (60 : ℕ) := by linarith
    have : 10 * a + b < 60 := by exact_mod_cast this
    omega
  · rintro ⟨a, b, digits, ha, h₉, hd, rfl, hx⟩
    obtain ⟨hf₀, hf₁⟩ := Grammar.fraction_mem h₉.digits_le_nine
    have hb₉ : b ≤ 9 := h₉.whole_le_nine b (by simp)
    have hl : ((0 : ℕ) : ℚ) ≤ Decimal.toRat x := by
      rw [hx]
      positivity
    have hu : Decimal.toRat x < (60 : ℕ) := by
      have : ((10 * a + b + 1 : ℕ) : ℚ) ≤ (60 : ℕ) := by
        exact_mod_cast (by omega : 10 * a + b + 1 ≤ 60)
      rw [hx, number_pair]
      push_cast at this ⊢
      linarith
    have hl : 0 ≤ x := by simpa using Decimal.natCast_le_toRat_iff.mp hl
    have hu : x < 60 * Decimal.decimalPartPow := by simpa using Decimal.toRat_lt_natCast_iff.mp hu
    have hc : Decimal.checked x = some x := by
      apply Int.checked_of_mem
      unfold Decimal.decimalPartPow at hu
      omega
    exact ⟨_, [], _, (List.append_nil _).symm, ⟨rfl, _, _, rfl, h₉⟩,
      by rw [takeWhile_decimalText h₉]; rfl, x, (fromStr_decimalText h₉ (by simp)).mpr ⟨hx, hc⟩,
      ⟨hl, hu⟩, (getLast?_decimalText h₉).mpr hd, rfl, rfl⟩

end Datatypes
