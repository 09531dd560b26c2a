import OxigraphCloud.Datatypes.Grammar
import OxigraphCloud.Datatypes.Theorems.DateTime

-- The fragments of dates and times that the parsers read.
namespace Datatypes

open Lexical

theorem exists_digitChar {c : Char} (h : c.isDigit) : ∃ d ≤ 9, c = d.digitChar := by
  obtain ⟨hl, hu⟩ := Char.isDigit_iff_toNat.mp h
  have hz : '0'.toNat = 48 := rfl
  have hn : '9'.toNat = 57 := rfl
  refine ⟨c.toNat - 48, by omega, ?_⟩
  rw [← Char.toNat_inj, Nat.toNat_digitChar_of_lt_ten (by omega)]
  omega

theorem exists_digitChars (h : ∀ c ∈ word, c.isDigit) :
    ∃ digits : List ℕ, word = digits.map Nat.digitChar ∧ ∀ d ∈ digits, d ≤ 9 := by
  induction word with
  | nil => exact ⟨[], rfl, by simp⟩
  | cons c word ih =>
    obtain ⟨hc, hw⟩ := List.forall_mem_cons.mp h
    obtain ⟨d, hd, rfl⟩ := exists_digitChar hc
    obtain ⟨digits, rfl, hds⟩ := ih hw
    exact ⟨d :: digits, rfl, List.forall_mem_cons.mpr ⟨hd, hds⟩⟩

theorem isDigit_digitChars {digits : List ℕ} (h : ∀ d ∈ digits, d ≤ 9) :
    ∀ c ∈ digits.map Nat.digitChar, c.isDigit := by
  intro c hc
  obtain ⟨d, hd, rfl⟩ := List.mem_map.mp hc
  simpa [Nat.isDigit_digitChar] using Nat.lt_succ_of_le (h d hd)

theorem ofDigitChars_digitChars {digits : List ℕ} (h : ∀ d ∈ digits, d ≤ 9) (n : ℕ) :
    Nat.ofDigitChars 10 (digits.map Nat.digitChar) n = digits.foldl (10 * · + ·) n := by
  induction digits generalizing n with
  | nil => rfl
  | cons d digits ih =>
    obtain ⟨hd, h⟩ := List.forall_mem_cons.mp h
    rw [List.map_cons, Nat.ofDigitChars_cons_digitChar_of_lt_ten (by omega), List.foldl_cons, ih h]

-- The language of `integer_prefix`.
def digitsFrag : Lexical (List Char) := fun word digits => digits = word ∧ ∀ c ∈ word, c.isDigit

theorem integerPrefix_reads : Reads integerPrefix digitsFrag NoDigit where
  sound := by
    intro input digits rest h
    simp only [integerPrefix, List.span_eq_takeWhile_dropWhile, Option.some.injEq,
      Prod.mk.injEq] at h
    obtain ⟨rfl, rfl⟩ := h
    exact ⟨_, List.takeWhile_append_dropWhile.symm, rfl, fun _ => List.mem_takeWhile_imp⟩
  complete := by
    rintro word _ rest ⟨rfl, hd⟩ hr
    exact integerPrefix_of hd hr

theorem expectChar_reads (c : Char) : Reads (expectChar c) (char c) Follows where
  sound := by
    intro input _ rest h
    rcases input with _ | ⟨c', input⟩
    case nil => cases h
    case cons =>
      simp only [expectChar] at h
      split at h
      case isTrue hc =>
        cases h
        exact ⟨[c], by rw [hc]; rfl, rfl⟩
      case isFalse => cases h
  complete := by
    rintro word _ rest rfl -
    exact if_pos rfl

theorem digitsFrag_bind_iff : (digitsFrag >>= h) word b ↔
    ∃ digits right, word = digits ++ right ∧ (∀ c ∈ digits, c.isDigit) ∧ h digits right b where
  mp := by
    rintro ⟨_, right, digits, rfl, ⟨rfl, hd⟩, hb⟩
    exact ⟨digits, right, rfl, hd, hb⟩
  mpr := by
    rintro ⟨digits, right, rfl, hd, hb⟩
    exact ⟨digits, right, digits, rfl, ⟨rfl, hd⟩, hb⟩

theorem expectChar_bind_reads {f : Unit → Frag β} {h : Unit → Lexical β}
    (hf : Reads (f ()) (h ()) Follows) : Reads (expectChar c >>= f) (char c >>= h) Follows :=
  have hp : Reads (expectChar c) (char c) fun _ => True := expectChar_reads c
  hp.bind (fun _ => hf) fun _ _ _ _ _ _ => trivial

theorem length_two_bind_iff {h : ℕ → Lexical β} :
    (digitsFrag >>= fun digits => require (digits.length = 2) >>= fun _ =>
      h (Nat.ofDigitChars 10 digits 0)) word x ↔
    ∃ a b right, word = a.digitChar :: b.digitChar :: right ∧ (a ≤ 9 ∧ b ≤ 9) ∧
      h (10 * a + b) right x := by
  simp only [digitsFrag_bind_iff, require_bind_iff]
  constructor
  · rintro ⟨_, right, rfl, hd, hl, hx⟩
    obtain ⟨digits, rfl, h₉⟩ := exists_digitChars hd
    obtain ⟨a, b, rfl⟩ := List.length_eq_two.mp (by simpa using hl)
    rw [ofDigitChars_digitChars h₉] at hx
    exact ⟨a, b, right, rfl, by simpa using h₉, by simpa using hx⟩
  · rintro ⟨a, b, right, rfl, h₉, hx⟩
    have hd : ∀ d ∈ [a, b], d ≤ 9 := by simpa using h₉
    have hv : Nat.ofDigitChars 10 [a.digitChar, b.digitChar] 0 = 10 * a + b := by
      simpa using ofDigitChars_digitChars hd 0
    exact ⟨_, right, rfl, isDigit_digitChars hd, rfl, hv ▸ hx⟩

-- The numbers of two digits that satisfy a condition.
def pairs (condition : ℕ → ℕ → Prop) : Lexical ℕ := fun word n =>
  ∃ a b, word = [a.digitChar, b.digitChar] ∧ n = 10 * a + b ∧ condition a b

def twoDigit (lower upper : ℕ) : Lexical ℕ :=
  pairs fun a b => a ≤ 9 ∧ b ≤ 9 ∧ lower ≤ 10 * a + b ∧ 10 * a + b ≤ upper

theorem twoDigitFrag_reads : Reads (twoDigitFrag lower upper) (twoDigit lower upper) NoDigit := by
  have h : Reads (twoDigitFrag lower upper) (do
      let digits ← digitsFrag
      require (digits.length = 2)
      let number := Nat.ofDigitChars 10 digits 0
      require (lower ≤ number ∧ number ≤ upper)
      return number) NoDigit :=
    integerPrefix_reads.bind (fun _ => .guard_bind <| .guard_bind <| .pure _) (by simp_all)
  apply h.congr
  intro word n
  rw [length_two_bind_iff (h := fun n => require (lower ≤ n ∧ n ≤ upper) >>= fun _ => pure n)]
  simp only [require_bind_iff, pure_iff]
  constructor
  · rintro ⟨a, b, _, rfl, ⟨ha, hb⟩, hn, rfl, rfl⟩
    exact ⟨a, b, rfl, rfl, ha, hb, hn⟩
  · rintro ⟨a, b, rfl, rfl, ha, hb, hn⟩
    exact ⟨a, b, [], rfl, ⟨ha, hb⟩, hn, rfl, rfl⟩

theorem pairs_congr (h : ∀ a b, P a b ↔ Q a b) : pairs P = pairs Q := by
  have : P = Q := funext fun a => funext fun b => propext (h a b)
  rw [this]

theorem pairs_orElse (P Q : ℕ → ℕ → Prop) :
    (pairs P <|> pairs Q) = pairs fun a b => P a b ∨ Q a b := by
  ext word n
  simp only [orElse_iff, pairs]
  grind

namespace Grammar

theorem twoDigits_eq (l u l' u' : ℕ) : twoDigits (digit l u) (digit l' u') =
    pairs fun a b => (l ≤ a ∧ a ≤ u) ∧ l' ≤ b ∧ b ≤ u' := by
  ext word n
  constructor
  · rintro ⟨_, _, a, rfl, ⟨rfl, ha⟩, _, _, b, rfl, ⟨rfl, hb⟩, rfl, rfl⟩
    exact ⟨a, b, rfl, rfl, ha, hb⟩
  · rintro ⟨a, b, rfl, rfl, ha, hb⟩
    exact ⟨[_], [_], a, rfl, ⟨rfl, ha⟩, [_], [], b, rfl, ⟨rfl, hb⟩, rfl, rfl⟩

theorem monthFrag_eq : monthFrag = twoDigit 1 12 := by
  unfold monthFrag
  rw [twoDigits_eq, twoDigits_eq, pairs_orElse]
  exact pairs_congr fun a b => by omega

theorem dayFrag_eq : dayFrag = twoDigit 1 31 := by
  unfold dayFrag
  rw [twoDigits_eq, twoDigits_eq, twoDigits_eq, pairs_orElse, pairs_orElse]
  exact pairs_congr fun a b => by omega

theorem hourFrag_eq : hourFrag = twoDigit 0 23 := by
  unfold hourFrag
  rw [twoDigits_eq, twoDigits_eq, pairs_orElse]
  exact pairs_congr fun a b => by omega

theorem minuteFrag_eq : minuteFrag = twoDigit 0 59 := by
  unfold minuteFrag
  rw [twoDigits_eq]
  exact pairs_congr fun a b => by omega

end Grammar

-- A character that may be there.
def flag (c : Char) : Lexical Bool := fun word present => word = if present then [c] else []

theorem stripChar_reads (c : Char) :
    Reads (stripChar c) (flag c) fun rest => rest.head? ≠ some c where
  sound := by
    intro input present rest h
    rcases input with _ | ⟨c', input⟩
    case nil =>
      cases h
      exact ⟨[], rfl, rfl⟩
    case cons =>
      simp only [stripChar] at h
      split at h
      case isTrue hc =>
        cases h
        exact ⟨[c], by rw [hc]; rfl, rfl⟩
      case isFalse =>
        cases h
        exact ⟨[], rfl, rfl⟩
  complete := by
    rintro word present rest rfl hr
    cases present
    case false => exact stripChar_of_ne hr
    case true => exact stripChar_self c rest

theorem flag_bind_iff : (flag c >>= h) word b ↔
    (∃ right, word = c :: right ∧ h true right b) ∨ h false word b where
  mp := by
    rintro ⟨_, right, present, rfl, rfl, hb⟩
    cases present
    case false => exact .inr hb
    case true => exact .inl ⟨right, rfl, hb⟩
  mpr := by
    rintro (⟨right, rfl, hb⟩ | hb)
    · exact ⟨[c], right, true, rfl, rfl, hb⟩
    · exact ⟨[], word, false, rfl, rfl, hb⟩

theorem Integer.fromStr_digits (hd : ∀ c ∈ digits, c.isDigit) (hn : digits ≠ []) :
    Integer.fromStr w digits = Int.checked w (Nat.ofDigitChars 10 digits 0) := by
  have h : Integer.fromStr w (printSign 0 ++ digits) = _ := Integer.fromStr_printSign hd hn
  rwa [show signOf 0 = 1 from rfl, one_mul] at h

-- The digits of a year.
structure IsYear (digits : List ℕ) : Prop where
  le_nine   : ∀ d ∈ digits, d ≤ 9
  length_le : 4 ≤ digits.length
  head?_ne  : 4 < digits.length → digits.head? ≠ some 0

theorem IsYear.ne_nil (h : IsYear digits) : digits ≠ [] := by
  rintro rfl
  simpa using h.length_le

theorem Grammar.yearDigits_iff :
    yearDigits word digits ↔ word = digits.map Nat.digitChar ∧ IsYear digits := by
  simp only [yearDigits, orElse_iff, digit_bind_iff, char_bind_iff, pure_iff]
  constructor
  · rintro (⟨a, _, rfl, ha, b, _, rfl, hb, c, _, rfl, hc, _, _, ds, rfl, hds, rfl, rfl⟩ |
      ⟨_, rfl, b, _, rfl, hb, c, _, rfl, hc, d, _, rfl, hd, rfl, rfl⟩)
    · obtain ⟨hn, rfl, hds⟩ := plus_digit_iff.mp hds
      have := List.length_pos_iff.mpr hn
      exact ⟨by simp, by grind, by simp; omega, by simp; omega⟩
    · exact ⟨by simp, by simp; omega, by simp, by simp⟩
  · rintro ⟨rfl, h₉, hl, h₀⟩
    rcases digits with _ | ⟨a, _ | ⟨b, _ | ⟨c, _ | ⟨d, digits⟩⟩⟩⟩
    case cons.cons.cons.cons =>
      obtain ⟨ha₉, hb, hc, hd, hds⟩ : a ≤ 9 ∧ b ≤ 9 ∧ c ≤ 9 ∧ d ≤ 9 ∧ ∀ d ∈ digits, d ≤ 9 := by
        simpa using h₉
      by_cases ha : a = 0
      case neg =>
        have hp : plus (digit 0 9) ((d :: digits).map Nat.digitChar) (d :: digits) :=
          plus_digit_iff.mpr ⟨by simp, rfl, by simpa using ⟨hd, hds⟩⟩
        exact .inl
          ⟨a, _, rfl, ⟨by omega, ha₉⟩, b, _, rfl, ⟨by omega, hb⟩, c, _, rfl, ⟨by omega, hc⟩,
          _, [], _, by simp, hp, rfl, rfl⟩
      case pos =>
        have hn : digits = [] := by
          by_contra hn
          have := List.length_pos_iff.mpr hn
          exact h₀ (by simp; omega) (by simp [ha])
        subst hn ha
        exact .inr ⟨_, rfl, b, _, rfl, ⟨by omega, hb⟩, c, _, rfl, ⟨by omega, hc⟩, d, [], rfl,
          ⟨by omega, hd⟩, rfl, rfl⟩
    all_goals simp at hl

def signed (negative : Bool) (word : List Char) : List Char :=
  if negative then '-' :: word else word

theorem Grammar.yearFrag_iff : yearFrag word y ↔
    ∃ (negative : Bool) (digits : List ℕ), word = signed negative (digits.map Nat.digitChar) ∧
      IsYear digits ∧ y = if negative then -(number digits : ℤ) else number digits where
  mp := by
    rintro ⟨left, _, sign, rfl, hs, right, _, digits, rfl, hd, rfl, rfl⟩
    obtain ⟨rfl, hy⟩ := yearDigits_iff.mp hd
    rcases sign with _ | _
    case none =>
      cases hs
      exact ⟨false, digits, by simp [signed], hy, rfl⟩
    case some =>
      cases hs
      exact ⟨true, digits, by simp [signed], hy, rfl⟩
  mpr := by
    rintro ⟨negative, digits, rfl, hd, rfl⟩
    have hd := yearDigits_iff.mpr ⟨rfl, hd⟩
    cases negative
    case false => exact ⟨[], _, none, rfl, rfl, _, [], digits, by simp, hd, rfl, rfl⟩
    case true => exact ⟨['-'], _, some (), rfl, rfl, _, [], digits, by simp, hd, rfl, rfl⟩

theorem abs_signed (negative : Bool) (n : ℕ) : |if negative then -(n : ℤ) else n| = n := by
  cases negative <;> simp

theorem yearFrag_reads :
    Reads yearFrag (fun word y => Grammar.yearFrag word y ∧ |y| < 2 ^ 63) NoDigit := by
  have h : Reads yearFrag (do
      let negative ← flag '-'
      let digits ← digitsFrag
      require (4 ≤ digits.length)
      require (¬(4 < digits.length ∧ digits.head? = some '0'))
      let number ← given (Integer.fromStr 64 digits)
      return if negative then -number else number) NoDigit := by
    refine (stripChar_reads '-').bind (fun _ => integerPrefix_reads.bind (fun _ => .guard_bind <|
      .guard_bind <| .given_bind fun _ => .pure _) (by simp_all)) ?_
    intro negative word y rest hw hr
    simp only [digitsFrag_bind_iff, require_bind_iff, given_bind_iff, pure_iff] at hw
    obtain ⟨digits, _, rfl, hd, hl, -⟩ := hw
    rw [List.append_assoc]
    exact head?_append_ne hd (by rintro rfl; simp at hl) (by decide)
  apply h.congr
  intro word y
  rw [bind_iff, Grammar.yearFrag_iff]
  simp only [digitsFrag_bind_iff, require_bind_iff, given_bind_iff, pure_iff]
  constructor
  · rintro ⟨_, _, negative, rfl, rfl, _, _, rfl, hd, hl, h₀, number, hn, rfl, rfl⟩
    obtain ⟨digits, rfl, h₉⟩ := exists_digitChars hd
    rw [Integer.fromStr_digits hd (by rintro h; simp [h] at hl), ofDigitChars_digitChars h₉] at hn
    obtain ⟨rfl, hn⟩ := Int.checked_eq_some_iff.mp hn
    have hy : IsYear digits := ⟨h₉, by simpa using hl, by simpa using h₀⟩
    refine ⟨⟨negative, digits, by cases negative <;> simp [signed], hy, rfl⟩, ?_⟩
    rw [abs_signed]
    exact hn.2
  · rintro ⟨⟨negative, digits, rfl, hy, rfl⟩, hb⟩
    have hd := isDigit_digitChars hy.le_nine
    refine ⟨if negative then ['-'] else [], _, negative, ?_, rfl, _, [], (List.append_nil _).symm,
      hd, ?_, ?_, Grammar.number digits, ?_, rfl, rfl⟩
    · cases negative <;> rfl
    · simpa using hy.length_le
    · simpa using hy.head?_ne
    · rw [abs_signed] at hb
      rw [Integer.fromStr_digits hd (by simpa using hy.ne_nil), ofDigitChars_digitChars hy.le_nine]
      exact Int.checked_of_mem ⟨by omega, hb⟩

-- A sign, of which a plus sign may be missing.
def signLang : Lexical Bool := fun word negative =>
  if negative then word = ['-'] else word = ['+'] ∨ word = []

theorem signFrag_reads :
    Reads signFrag signLang fun rest => rest.head? ≠ some '-' ∧ rest.head? ≠ some '+' where
  sound := by
    intro input negative rest h
    obtain ⟨⟨minus, middle⟩, hm, h₁⟩ := Option.bind_eq_some_iff.mp h
    obtain ⟨left, rfl, rfl⟩ := (stripChar_reads '-').sound hm
    cases minus
    case true =>
      cases h₁
      exact ⟨['-'], rfl, rfl⟩
    case false =>
      obtain ⟨⟨plus, last⟩, hp, h₂⟩ := Option.bind_eq_some_iff.mp h₁
      obtain ⟨right, rfl, rfl⟩ := (stripChar_reads '+').sound hp
      cases h₂
      exact ⟨_, rfl, by cases plus <;> simp [signLang]⟩
  complete := by
    rintro word negative rest hw ⟨hm, hp⟩
    cases negative
    case true =>
      cases hw
      rfl
    case false =>
      rcases hw with rfl | rfl
      · rfl
      · rw [List.nil_append, signFrag, Frag.bind_of (stripChar_of_ne hm)]
        simp only [Bool.false_eq_true, ↓reduceIte]
        rw [Frag.bind_of (stripChar_of_ne hp)]
        rfl

-- A sign and an offset in hours and minutes.
structure IsOffset (negative : Bool) (a b c d : ℕ) (offset : ℤ) : Prop where
  le_nine : a ≤ 9 ∧ b ≤ 9 ∧ c ≤ 5 ∧ d ≤ 9
  mem     : 10 * a + b ≤ 13 ∨ 10 * a + b = 14 ∧ 10 * c + d = 0
  eq      : offset = if negative then -(((10 * a + b) * 60 + (10 * c + d) : ℕ) : ℤ) else
    ((10 * a + b) * 60 + (10 * c + d) : ℕ)

def offsetText (a b c d : ℕ) : List Char :=
  [a.digitChar, b.digitChar, ':', c.digitChar, d.digitChar]

theorem twoDigit_bind_iff {h : ℕ → Lexical β} : (twoDigit lower upper >>= h) word x ↔
    ∃ a b right, word = a.digitChar :: b.digitChar :: right ∧ (a ≤ 9 ∧ b ≤ 9) ∧
      (lower ≤ 10 * a + b ∧ 10 * a + b ≤ upper) ∧ h (10 * a + b) right x where
  mp := by
    rintro ⟨_, right, _, rfl, ⟨a, b, rfl, rfl, ha, hb, hn⟩, hx⟩
    exact ⟨a, b, right, rfl, ⟨ha, hb⟩, hn, hx⟩
  mpr := by
    rintro ⟨a, b, right, rfl, ⟨ha, hb⟩, hn, hx⟩
    exact ⟨_, right, _, rfl, ⟨a, b, rfl, rfl, ha, hb, hn⟩, hx⟩

def offsetFrag (negative : Bool) : Frag ℤ := do
  let digits ← integerPrefix
  guard (digits.length = 2)
  let hours := Nat.ofDigitChars 10 digits 0
  expectChar ':'
  let minutes ← minuteFrag
  guard (¬(13 < hours ∧ ¬(hours = 14 ∧ minutes = 0)))
  let offset : ℤ := hours * 60 + minutes
  liftM (TimezoneOffset.new (if negative then -offset else offset))

def offsetLang (negative : Bool) : Lexical ℤ := fun word offset =>
  ∃ a b c d, word = offsetText a b c d ∧ IsOffset negative a b c d offset

theorem offsetNew_eq_some_iff {n : ℕ} (negative : Bool) (h : n ≤ 840) :
    TimezoneOffset.new (if negative then -(n : ℤ) else n) = some offset ↔
      offset = if negative then -(n : ℤ) else n := by
  rw [TimezoneOffset.new, if_pos (by cases negative <;> simp <;> omega), Option.some.injEq, eq_comm]

theorem offsetFrag_reads (negative : Bool) :
    Reads (offsetFrag negative) (offsetLang negative) NoDigit := by
  have h : Reads (offsetFrag negative) (do
      let digits ← digitsFrag
      require (digits.length = 2)
      let hours := Nat.ofDigitChars 10 digits 0
      char ':'
      let minutes ← twoDigit 0 59
      require (¬(13 < hours ∧ ¬(hours = 14 ∧ minutes = 0)))
      let offset : ℤ := hours * 60 + minutes
      given (TimezoneOffset.new (if negative then -offset else offset))) NoDigit := by
    refine integerPrefix_reads.bind (fun _ => .guard_bind <| expectChar_bind_reads <|
      twoDigitFrag_reads.bind (fun _ => .guard_bind <| .given _) ?_) ?_
    · simp_all [Lexical.given]
    · intro digits word offset rest hw hr
      simp only [require_bind_iff, char_bind_iff] at hw
      obtain ⟨-, _, rfl, -⟩ := hw
      exact noDigit_cons (by decide)
  apply h.congr
  intro word offset
  rw [length_two_bind_iff (h := fun hours => do
    char ':'
    let minutes ← twoDigit 0 59
    require (¬(13 < hours ∧ ¬(hours = 14 ∧ minutes = 0)))
    let offset : ℤ := hours * 60 + minutes
    given (TimezoneOffset.new (if negative then -offset else offset)))]
  simp only [char_bind_iff, twoDigit_bind_iff, require_bind_iff, Lexical.given]
  constructor
  · rintro ⟨a, b, _, rfl, hab, _, rfl, c, d, _, rfl, hcd, hm, hh, rfl, ho⟩
    exact ⟨a, b, c, d, rfl, by omega, by omega, (offsetNew_eq_some_iff negative (by omega)).mp ho⟩
  · rintro ⟨a, b, c, d, rfl, h₉, hm, rfl⟩
    refine ⟨a, b, _, rfl, by omega, _, rfl, c, d, [], rfl, by omega, by omega, by omega, rfl, ?_⟩
    exact (offsetNew_eq_some_iff (n := (10 * a + b) * 60 + (10 * c + d)) negative
      (by omega)).mpr rfl

-- The language of `timezone_frag`.
def timezoneLang : Lexical ℤ := fun word offset =>
  (word = ['Z'] ∧ offset = 0) ∨ ∃ left negative right,
    word = left ++ right ∧ signLang left negative ∧ offsetLang negative right offset

-- An offset starts with a digit.
theorem head?_offsetLang (h : offsetLang negative word offset) (hc : ¬c.isDigit) :
    word.head? ≠ some c := by
  obtain ⟨a, b, _, _, rfl, ho⟩ := h
  rintro h
  cases h
  exact hc (by simpa [Nat.isDigit_digitChar] using Nat.lt_succ_of_le ho.le_nine.1)

theorem timezoneFrag_reads : Reads timezoneFrag timezoneLang (· = []) := by
  have h : Reads timezoneFrag (do
      let utc ← flag 'Z'
      if utc then
        return 0
      else
        let negative ← signLang
        offsetLang negative) (· = []) := by
    refine (stripChar_reads 'Z').bind (fun utc => ?_) ?_
    · cases utc
      case true => exact .pure 0
      case false =>
        refine signFrag_reads.bind (f := offsetFrag)
          (fun negative => (offsetFrag_reads negative).mono ?_) ?_
        · rintro _ rfl
          rfl
        · rintro negative word offset _ hw rfl
          rw [List.append_nil]
          exact ⟨head?_offsetLang hw (by decide), head?_offsetLang hw (by decide)⟩
    · rintro utc word offset _ hw rfl
      cases utc
      case true => simp_all
      case false =>
        obtain ⟨left, right, negative, rfl, hs, ho⟩ := hw
        cases negative
        case true => simp [show left = ['-'] from hs]
        case false =>
          rcases hs with rfl | rfl
          · simp
          · simpa using head?_offsetLang ho (by decide)
  apply h.congr
  intro word offset
  rw [flag_bind_iff]
  constructor
  · rintro (⟨_, rfl, rfl, rfl⟩ | ⟨left, right, negative, rfl, hs, ho⟩)
    · exact .inl ⟨rfl, rfl⟩
    · exact .inr ⟨left, negative, right, rfl, hs, ho⟩
  · rintro (⟨rfl, rfl⟩ | ⟨left, negative, right, rfl, hs, ho⟩)
    · exact .inl ⟨[], rfl, rfl, rfl⟩
    · exact .inr ⟨left, right, negative, rfl, hs, ho⟩

namespace Grammar

theorem pairs_bind_iff {h : ℕ → Lexical β} : (pairs P >>= h) word x ↔
    ∃ a b right, word = a.digitChar :: b.digitChar :: right ∧ P a b ∧ h (10 * a + b) right x where
  mp := by
    rintro ⟨_, right, _, rfl, ⟨a, b, rfl, rfl, hp⟩, hx⟩
    exact ⟨a, b, right, rfl, hp, hx⟩
  mpr := by
    rintro ⟨a, b, right, rfl, hp, hx⟩
    exact ⟨_, right, _, rfl, ⟨a, b, rfl, rfl, hp⟩, hx⟩

theorem offsetMinutes_iff : offsetMinutes word n ↔
    ∃ a b c d, word = offsetText a b c d ∧ (a ≤ 9 ∧ b ≤ 9 ∧ c ≤ 5 ∧ d ≤ 9) ∧
      (10 * a + b ≤ 13 ∨ 10 * a + b = 14 ∧ 10 * c + d = 0) ∧
      n = (10 * a + b) * 60 + (10 * c + d) := by
  simp only [offsetMinutes, minuteFrag, twoDigits_eq, pairs_orElse, orElse_iff, pairs_bind_iff,
    char_bind_iff, pure_iff]
  constructor
  · rintro (⟨a, b, _, rfl, hab, _, rfl, c, d, _, rfl, hcd, rfl, rfl⟩ |
      ⟨_, rfl, _, rfl, _, rfl, _, rfl, _, rfl, rfl, rfl⟩)
    · exact ⟨a, b, c, d, rfl, by omega, by omega, rfl⟩
    · exact ⟨1, 4, 0, 0, rfl, by omega, by omega, rfl⟩
  · rintro ⟨a, b, c, d, rfl, h₉, hm | hm, rfl⟩
    · exact .inl ⟨a, b, _, rfl, by omega, _, rfl, c, d, [], rfl, by omega, rfl, rfl⟩
    · obtain ⟨rfl, rfl, rfl, rfl⟩ : a = 1 ∧ b = 4 ∧ c = 0 ∧ d = 0 := by omega
      exact .inr ⟨_, rfl, _, rfl, _, rfl, _, rfl, _, rfl, rfl, rfl⟩

theorem offsetLang_iff : offsetLang negative word offset ↔
    ∃ n : ℕ, offsetMinutes word n ∧ offset = if negative then -(n : ℤ) else n := by
  simp only [offsetMinutes_iff, offsetLang]
  constructor
  · rintro ⟨a, b, c, d, rfl, h₉, hm, rfl⟩
    exact ⟨_, ⟨a, b, c, d, rfl, h₉, hm, rfl⟩, rfl⟩
  · rintro ⟨_, ⟨a, b, c, d, rfl, h₉, hm, rfl⟩, rfl⟩
    exact ⟨a, b, c, d, rfl, h₉, hm, rfl⟩

-- The sign of an offset is not missing in the grammar.
theorem timezoneFrag_iff : timezoneFrag word offset ↔ timezoneLang word offset ∧ NoDigit word := by
  simp only [timezoneFrag, timezoneLang, offsetLang_iff, orElse_iff, char_bind_iff, pure_iff]
  constructor
  · rintro (⟨_, rfl, rfl, rfl⟩ | ⟨_, _, sign, rfl, hs, word, _, n, rfl, hn, rfl, rfl⟩)
    · exact ⟨.inl ⟨rfl, rfl⟩, noDigit_cons (by decide)⟩
    · rcases hs with hs | hs <;> obtain ⟨_, rfl, rfl, rfl⟩ := char_bind_iff.mp hs
      · exact ⟨.inr ⟨['+'], false, word, by simp, .inl rfl, n, hn, by simp⟩,
          noDigit_cons (by decide)⟩
      · exact ⟨.inr ⟨['-'], true, word, by simp, rfl, n, hn, by simp⟩, noDigit_cons (by decide)⟩
  · rintro ⟨⟨rfl, rfl⟩ | ⟨left, negative, word, rfl, hs, n, hn, rfl⟩, hd⟩
    · exact .inl ⟨[], rfl, rfl, rfl⟩
    · cases negative
      case true =>
        cases hs
        exact .inr ⟨['-'], word, -1, rfl,
          .inr <| char_bind_iff.mpr ⟨[], rfl, rfl, rfl⟩, word, [], n, by simp, hn, rfl, by simp⟩
      case false =>
        rcases hs with rfl | rfl
        · exact .inr ⟨['+'], word, 1, rfl,
            .inl <| char_bind_iff.mpr ⟨[], rfl, rfl, rfl⟩, word, [], n, by simp, hn, rfl, by simp⟩
        · obtain ⟨a, b, c, d, rfl, h₉, -⟩ := offsetMinutes_iff.mp hn
          simp [NoDigit, offsetText, Nat.isDigit_digitChar] at hd
          omega

end Grammar

end Datatypes
