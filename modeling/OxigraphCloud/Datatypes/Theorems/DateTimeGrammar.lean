import OxigraphCloud.Datatypes.Theorems.Addition
import OxigraphCloud.Datatypes.Theorems.DateTimeFields

-- The strings that the parsers of `xsd:dateTime` and `xsd:time` accept.
namespace Datatypes

open Lexical

namespace Grammar

-- The check of the parsers for times after 24:00:00.
def Clock.Checked (c : Clock) : Prop := ¬(c.hour = 24 ∧ c.minute ≠ 0 ∧ c.second ≠ 0)

-- The day only ends at 24:00:00.
def Clock.Proper (c : Clock) : Prop := c.hour = 24 → c.minute = 0 ∧ c.second = 0

-- A time after 24:00:00 of which the minute or the second is zero.
def Clock.Late (c : Clock) : Prop := c.hour = 24 ∧ ¬(c.minute = 0 ↔ c.second = 0)

theorem Clock.checked_iff (c : Clock) : c.Checked ↔ c.Proper ∨ c.Late := by
  unfold Checked Proper Late
  tauto

theorem Clock.Late.not_proper {c : Clock} (h : c.Late) : ¬c.Proper := by
  unfold Late Proper at *
  tauto

theorem fraction_eq_zero_iff {digits : List ℕ} (h : ∀ d ∈ digits, d ≤ 9) :
    fraction digits = 0 ↔ ∀ d ∈ digits, d = 0 := by
  induction digits with
  | nil => simp [fraction]
  | cons d digits ih =>
    obtain ⟨hd, h⟩ := List.forall_mem_cons.mp h
    have hf := (fraction_mem h).1
    have he : fraction (d :: digits) = (d + fraction digits) / 10 := rfl
    have hn : (0 : ℚ) ≤ d := Nat.cast_nonneg d
    rw [he, List.forall_mem_cons, ← ih h, div_eq_zero_iff, add_eq_zero_iff_of_nonneg hn hf]
    norm_num

theorem secondFrag_zero_iff : secondFrag word 0 ↔ ∃ digits, digits ≠ some [] ∧
    (∀ d ∈ digits.getD [], d = 0) ∧ word = decimalText [0, 0] digits := by
  rw [secondFrag_iff]
  constructor
  · rintro ⟨a, b, digits, ha, h₉, hn, rfl, h₀⟩
    have hf := (fraction_mem h₉.digits_le_nine).1
    have hz := (add_eq_zero_iff_of_nonneg (Nat.cast_nonneg _) hf).mp h₀.symm
    have hab : number [a, b] = 0 := by exact_mod_cast hz.1
    rw [number_pair] at hab
    obtain ⟨rfl, rfl⟩ : a = 0 ∧ b = 0 := by omega
    exact ⟨digits, hn, (fraction_eq_zero_iff h₉.digits_le_nine).mp hz.2, rfl⟩
  · rintro ⟨digits, hn, hz, rfl⟩
    have h₉ : IsDecimal [0, 0] digits := ⟨by simp, fun d hd => by simp [hz d hd]⟩
    exact ⟨0, 0, digits, by omega, h₉, hn, rfl,
      by rw [(fraction_eq_zero_iff h₉.digits_le_nine).mpr hz]; simp [number]⟩

theorem eq_of_twoDigit {n : ℕ} (h : twoDigit lower upper word n) (hb : b ≤ 9)
    (hn : n = 10 * a + b) : word = [a.digitChar, b.digitChar] := by
  obtain ⟨a', b', rfl, h', ha', hb', -⟩ := h
  obtain ⟨rfl, rfl⟩ : a = a' ∧ b = b' := by omega
  rfl

theorem endOfDayFrag_iff : endOfDayFrag word c ↔
    clock24 word c ∧ c.hour = 24 ∧ c.minute = 0 ∧ c.second = 0 := by
  rw [clock24, clockFrag_iff, minuteFrag_eq]
  simp only [endOfDayFrag, char_bind_iff]
  constructor
  · rintro ⟨_, rfl, _, rfl, _, rfl, _, rfl, _, rfl, _, rfl, _, rfl, _, rfl, word, _, digits, rfl,
      hd, rfl, rfl⟩
    obtain ⟨rfl, hn, hd⟩ := dotDigits_iff.mp hd
    have hs := secondFrag_zero_iff.mpr ⟨digits, hn, fun d h => Nat.le_zero.mp (hd d h).2, rfl⟩
    exact ⟨⟨['2', '4'], ['0', '0'], _, by simp [decimalText], ⟨2, 4, rfl, rfl, by decide⟩,
      ⟨0, 0, rfl, rfl, by decide⟩, hs⟩, rfl, rfl, rfl⟩
  · rintro ⟨⟨left, middle, right, rfl, hl, hm, hs⟩, hh₀, hm₀, hs₀⟩
    rw [hs₀, secondFrag_zero_iff] at hs
    obtain ⟨digits, hn, hd, rfl⟩ := hs
    rw [eq_of_twoDigit (a := 2) (b := 4) hl (by omega) hh₀,
      eq_of_twoDigit (a := 0) (b := 0) hm (by omega) hm₀]
    have hd := dotDigits_iff.mpr ⟨rfl, hn, fun d h => ⟨Nat.zero_le d, (hd d h).le⟩⟩
    refine ⟨_, rfl, _, rfl, _, rfl, _, rfl, _, rfl, _, rfl, _, rfl, _, rfl, _, [], digits, by simp,
      hd, rfl, ?_⟩
    rw [← hh₀, ← hm₀, ← hs₀]

theorem timeFrag_iff :
    (clockFrag hourFrag <|> endOfDayFrag) word c ↔ clock24 word c ∧ c.Proper := by
  rw [orElse_iff, endOfDayFrag_iff, clock24, clockFrag_iff, clockFrag_iff, hourFrag_eq]
  constructor
  · rintro (⟨left, middle, right, rfl, ⟨a, b, rfl, hh, hab⟩, hm, hs⟩ | ⟨h, -, h₀⟩)
    · exact ⟨⟨_, middle, right, rfl, ⟨a, b, rfl, hh, by omega⟩, hm, hs⟩, fun h => by omega⟩
    · exact ⟨h, fun _ => h₀⟩
  · rintro ⟨h, hp⟩
    by_cases h₂₄ : c.hour = 24
    case pos => exact .inr ⟨h, h₂₄, hp h₂₄⟩
    case neg =>
      obtain ⟨left, middle, right, rfl, ⟨a, b, rfl, hh, hab⟩, hm, hs⟩ := h
      exact .inl ⟨_, middle, right, rfl, ⟨a, b, rfl, hh, by omega⟩, hm, hs⟩

theorem lateFrag_iff : lateFrag word c ↔ clock24 word c ∧ c.Late := by
  have h (word c) : clockFrag (do char '2'; char '4'; return 24) word c ↔
      clock24 word c ∧ c.hour = 24 := by
    rw [clock24, clockFrag_iff, clockFrag_iff]
    simp only [char_bind_iff, pure_iff]
    constructor
    · rintro ⟨_, middle, right, rfl, ⟨_, rfl, _, rfl, rfl, hh⟩, hm, hs⟩
      exact ⟨⟨_, middle, right, rfl, ⟨2, 4, rfl, hh, by decide⟩, hm, hs⟩, hh⟩
    · rintro ⟨⟨left, middle, right, rfl, hl, hm, hs⟩, hh⟩
      rw [eq_of_twoDigit (a := 2) (b := 4) hl (by omega) hh]
      exact ⟨_, middle, right, rfl, ⟨_, rfl, _, rfl, rfl, hh⟩, hm, hs⟩
  unfold lateFrag
  rw [bind_iff]
  simp only [require_bind_iff, pure_iff, h]
  constructor
  · rintro ⟨_, _, c, rfl, ⟨hw, h₂₄⟩, hl, rfl, rfl⟩
    exact ⟨by rwa [List.append_nil], h₂₄, hl⟩
  · rintro ⟨hw, h₂₄, hl⟩
    exact ⟨word, [], c, (List.append_nil _).symm, ⟨hw, h₂₄⟩, hl, rfl, rfl⟩

end Grammar

theorem clockOf_second_eq_zero_iff {fields : ℕ × ℕ × ℤ} :
    (clockOf fields).second = 0 ↔ fields.2.2 = 0 := by
  have h₀ : Decimal.toRat 0 = 0 := by simp [Decimal.toRat]
  rw [clockOf, ← h₀, Decimal.toRat_inj]

theorem timeFrag_eq : timeFrag = clockFields >>= fun fields => do
    guard (¬(fields.1 = 24 ∧ fields.2.1 ≠ 0 ∧ fields.2.2 ≠ 0))
    return fields := by
  simp [timeFrag, clockFields]

theorem timeFrag_eq_some_iff : timeFrag input = some (fields, rest) ↔
    clockFields input = some (fields, rest) ∧ (clockOf fields).Checked := by
  rw [Grammar.Clock.Checked, ne_eq, ne_eq, clockOf_second_eq_zero_iff, timeFrag_eq,
    Frag.bind_eq_some_iff]
  simp only [Frag.guard_bind_eq_some_iff, Frag.pure_eq_some_iff]
  constructor
  · rintro ⟨fields, _, hf, hc, rfl, rfl⟩
    exact ⟨hf, hc⟩
  · rintro ⟨hf, hc⟩
    exact ⟨fields, rest, hf, hc, rfl, rfl⟩

theorem dateTimeLexicalRep_eq_some_iff : dateTimeLexicalRep input = some (t, rest) ↔
    ∃ fields, dateTimeFields input = some (fields, rest) ∧ (momentOf fields).Checked ∧
      (momentOf fields).day ≤ daysInMonth (some (momentOf fields).year) (momentOf fields).month ∧
      DateTime.new fields.1 fields.2.1 fields.2.2.1 fields.2.2.2.1.1 fields.2.2.2.1.2.1
        fields.2.2.2.1.2.2 fields.2.2.2.2 = some t := by
  simp only [dateTimeLexicalRep, dateTimeFields, timeFields, validateDayOfMonth,
    timeFrag_eq_some_iff, Frag.bind_eq_some_iff, Frag.guard_eq_some_iff, Frag.liftM_eq_some_iff,
    Frag.pure_eq_some_iff]
  constructor
  · rintro ⟨y, _, hy, _, _, h₁, mo, _, hm, _, _, h₂, d, _, hd, _, _, h₃, fields, _, ⟨hf, hc⟩, z, _,
      hz, _, _, ⟨hl, rfl⟩, hn, rfl⟩
    exact ⟨_, ⟨y, _, hy, _, _, h₁, mo, _, hm, _, _, h₂, d, _, hd, _, _, h₃, _, _,
      ⟨fields, _, hf, z, _, hz, rfl, rfl⟩, rfl, rfl⟩, hc, hl, hn⟩
  · rintro ⟨_, ⟨y, _, hy, _, _, h₁, mo, _, hm, _, _, h₂, d, _, hd, _, _, h₃, _, _,
      ⟨fields, _, hf, z, _, hz, rfl, rfl⟩, rfl, rfl⟩, hc, hl, hn⟩
    exact ⟨y, _, hy, _, _, h₁, mo, _, hm, _, _, h₂, d, _, hd, _, _, h₃, fields, _, ⟨hf, hc⟩, z, _,
      hz, (), _, ⟨hl, rfl⟩, hn, rfl⟩

namespace Grammar.Moment

open Decimal

variable {m : Moment}

-- The minutes since the start of the year 1 in UTC.
def minutes (m : Moment) : ℤ :=
  minutesOnTimeline m.year m.month m.day m.hour m.minute m.timezoneOffset

-- The seconds since then.
def timeline (m : Moment) : ℚ := 60 * m.minutes + m.second

-- A decimal can hold the seconds on the timeline, and what the parser adds up before them.
def Computable (m : Moment) : Prop := Representable (60 * m.minutes) ∧ Representable m.timeline

theorem toRat_minutes (m : Moment) :
    toRat (m.minutes * (60 * decimalPartPow)) = 60 * m.minutes := by
  rw [← mul_assoc, toRat_mul_decimalPartPow]
  push_cast
  ring

theorem toRat_add (a b : ℤ) : toRat (a + b) = toRat a + toRat b := by
  simp [toRat, add_div]

-- The second of a moment that a decimal can hold.
theorem exists_toRat_second (h : Representable m.timeline) : ∃ x, toRat x = m.second := by
  obtain ⟨d, hd⟩ := h
  refine ⟨d.toInt - m.minutes * (60 * decimalPartPow), ?_⟩
  have ha := toRat_add (d.toInt - m.minutes * (60 * decimalPartPow))
    (m.minutes * (60 * decimalPartPow))
  rw [sub_add_cancel, hd, toRat_minutes, timeline] at ha
  linarith

theorem computable_iff (hx : toRat x = m.second) : m.Computable ↔
    checked (m.minutes * (60 * decimalPartPow)) ≠ none ∧
      checked (m.minutes * (60 * decimalPartPow) + x) ≠ none := by
  have hc (y : ℤ) : checked y ≠ none ↔ Representable (toRat y) := by
    rw [representable_toRat_iff, checked, ne_eq, Int.checked_eq_none_iff, not_not,
      Int.checked_eq_some_iff, eq_self, true_and]
  rw [hc, hc, toRat_add, toRat_minutes, hx]
  rfl

theorem isSome_new_iff (hx : toRat x = m.second) :
    (DateTime.new m.year m.month m.day m.hour m.minute x m.timezoneOffset).isSome ↔
      m.Computable := by
  rw [computable_iff hx, Option.isSome_iff_exists]
  constructor
  · rintro ⟨⟨v, z⟩, h⟩
    obtain ⟨hm, hv, -⟩ := DateTime.new_eq_some_iff.mp h
    exact ⟨hm, (DateTime.toInt_eq_iff.mp hv).1⟩
  · rintro ⟨hm, hs⟩
    exact ⟨⟨_, _⟩, DateTime.new_eq_some_iff.mpr ⟨hm, DateTime.toInt_eq_iff.mpr ⟨hs, rfl⟩, rfl⟩⟩

end Grammar.Moment

namespace Grammar

theorem secondFrag_mem (h : secondFrag word v) : 0 ≤ v ∧ v < 60 := by
  obtain ⟨a, b, digits, ha, h₉, -, -, rfl⟩ := secondFrag_iff.mp h
  obtain ⟨hl, hu⟩ := fraction_mem h₉.digits_le_nine
  have hb : b ≤ 9 := h₉.whole_le_nine b (by simp)
  have hn : ((10 * a + b + 1 : ℕ) : ℚ) ≤ (60 : ℕ) := by
    exact_mod_cast (by omega : 10 * a + b + 1 ≤ 60)
  rw [number_pair]
  push_cast at hn ⊢
  exact ⟨by positivity, by linarith⟩

theorem twoDigit_mem (h : twoDigit lower upper word n) : lower ≤ n ∧ n ≤ upper := by
  obtain ⟨a, b, -, rfl, -, -, hn⟩ := h
  exact hn

-- The bounds of a time.
structure Clock.Bounded (c : Clock) : Prop where
  hour_le       : c.hour ≤ 24
  minute_le     : c.minute ≤ 59
  second_nonneg : 0 ≤ c.second
  second_lt     : c.second < 60

theorem bounded_of_clock24 (h : clock24 word c) : c.Bounded := by
  obtain ⟨_, _, _, -, hh, hm, hs⟩ := clockFrag_iff.mp h
  rw [minuteFrag_eq] at hm
  obtain ⟨h₁, h₂⟩ := secondFrag_mem hs
  exact ⟨(twoDigit_mem hh).2, (twoDigit_mem hm).2, h₁, h₂⟩

theorem timezoneOffset_mem (h : opt timezoneFrag word offset) :
    -840 ≤ offset.getD 0 ∧ offset.getD 0 ≤ 840 := by
  rcases offset with _ | offset
  case none => simp
  case some =>
    obtain ⟨⟨-, rfl⟩ | ⟨_, negative, _, -, -, a, b, c, d, -, h₉, hm, rfl⟩, -⟩ :=
      timezoneFrag_iff.mp h
    · simp
    · rw [Option.getD_some]
      split <;> omega

theorem lastDay_eq (y : ℤ) (hm : 1 ≤ m ∧ m ≤ 12) : lastDay y m = daysInMonth (some y) m := by
  have hl : IsLeap y ↔ ¬(y % 4 ≠ 0 ∨ (y % 100 = 0 ∧ y % 400 ≠ 0)) := by
    unfold IsLeap
    omega
  obtain ⟨h₁, h₁₂⟩ := hm
  by_cases h₂ : m = 2
  case pos =>
    subst h₂
    simp only [lastDay, daysInMonth, ↓reduceIte, hl, ite_not]
  case neg => interval_cases m <;> first | contradiction | rfl

-- Only years of 63 bits have a point on the timeline of decimals.
theorem abs_year_lt (h : dateTimeRep clock24 word m) (hr : Decimal.Representable m.timeline) :
    |m.year| < 2 ^ 63 := by
  obtain ⟨⟨y, mo, d, c, z, -, hy, hm, hd, hc, hz⟩, hl⟩ := dateTimeRep_iff.mp h
  rw [monthFrag_eq] at hm
  rw [dayFrag_eq] at hd
  have hm := twoDigit_mem hm
  have hd := twoDigit_mem hd
  have hb := bounded_of_clock24 hc
  have ho := timezoneOffset_mem hz
  rw [lastDay_eq _ hm] at hl
  have hdate : IsDate m.year m.month m.day := ⟨hm.1, hm.2, hd.1, hl⟩
  obtain ⟨v, hv⟩ := hr
  have hlow := v.le_toInt
  have hhigh := v.toInt_lt
  rw [Decimal.toRat, Moment.timeline, div_eq_iff Decimal.decimalPartPow_cast_ne_zero,
    Decimal.decimalPartPow] at hv
  have h₁ : m.minutes * 60 * 10 ^ 18 ≤ v.toInt := by
    have : (m.minutes * 60 * 10 ^ 18 : ℚ) ≤ v.toInt := by
      rw [hv]
      push_cast
      linarith [hb.second_nonneg]
    exact_mod_cast this
  have h₂ : v.toInt < (m.minutes + 1) * 60 * 10 ^ 18 := by
    have : (v.toInt : ℚ) < (m.minutes + 1) * 60 * 10 ^ 18 := by
      rw [hv]
      push_cast
      linarith [hb.second_lt]
    exact_mod_cast this
  have hmin : m.minutes = 1440 * daysOnTimeline (m.year - 1) m.month (m.day - 1) + 60 * m.hour +
    m.minute - m.timezoneOffset.getD 0 := rfl
  have hh := hb.hour_le
  have hmi := hb.minute_le
  have := hdate.year_mem ⟨by omega, by omega⟩
  rw [abs_lt]
  omega

end Grammar

namespace Grammar

variable {P : Clock → Prop} {T : Lexical Clock}

theorem dateTimeRep_restrict (hT : ∀ word c, T word c ↔ clock24 word c ∧ P c) :
    dateTimeRep T word m ↔ dateTimeRep clock24 word m ∧ P m.toClock := by
  simp only [dateTimeRep_iff, dateTimeWord, hT]
  constructor
  · rintro ⟨⟨y, mo, d, c, z, hw, hy, hm, hd, ⟨hc, hp⟩, hz⟩, hl⟩
    exact ⟨⟨⟨y, mo, d, c, z, hw, hy, hm, hd, hc, hz⟩, hl⟩, hp⟩
  · rintro ⟨⟨⟨y, mo, d, c, z, hw, hy, hm, hd, hc, hz⟩, hl⟩, hp⟩
    exact ⟨⟨y, mo, d, c, z, hw, hy, hm, hd, ⟨hc, hp⟩, hz⟩, hl⟩

theorem timeRep_restrict (hT : ∀ word c, T word c ↔ clock24 word c ∧ P c) :
    timeRep T word m ↔ timeRep clock24 word m ∧ P m.toClock := by
  simp only [timeRep_iff, hT]
  constructor
  · rintro ⟨c, z, hw, ⟨hc, hp⟩, hz⟩
    exact ⟨⟨c, z, hw, hc, hz⟩, hp⟩
  · rintro ⟨⟨c, z, hw, hc, hz⟩, hp⟩
    exact ⟨c, z, hw, ⟨hc, hp⟩, hz⟩

theorem month_mem (h : dateTimeWord T word m) : 1 ≤ m.month ∧ m.month ≤ 12 := by
  obtain ⟨_, _, _, _, _, -, -, hm, -⟩ := h
  rw [monthFrag_eq] at hm
  exact twoDigit_mem hm

theorem exists_momentOf (h : dateTimeRep clock24 word m) (hr : Decimal.Representable m.timeline) :
    ∃ fields, momentOf fields = m ∧ dateTimeFields word = some (fields, []) := by
  obtain ⟨x, hx⟩ := Moment.exists_toRat_second hr
  let fields := (m.year, m.month, m.day, (m.hour, m.minute, x), m.timezoneOffset)
  have hm : momentOf fields = m := by simp [fields, momentOf, clockOf, hx]
  refine ⟨fields, hm, (dateTimeFields_reads.eq_some_nil_iff rfl).mpr ⟨?_, abs_year_lt h hr⟩⟩
  rw [hm]
  exact (dateTimeRep_iff.mp h).1

theorem dateTimeRep_unique (h : dateTimeRep clock24 word m) (h' : dateTimeRep clock24 word m')
    (hr : Decimal.Representable m.timeline) (hr' : Decimal.Representable m'.timeline) : m = m' := by
  obtain ⟨fields, rfl, hf⟩ := exists_momentOf h hr
  obtain ⟨fields', rfl, hf'⟩ := exists_momentOf h' hr'
  rw [hf] at hf'
  cases hf'
  rfl

end Grammar

theorem DateTime.isSome_fromStr_iff : (DateTime.fromStr s).isSome ↔
    ∃ m, Grammar.dateTimeRep clock24 s m ∧ (m.Proper ∨ m.Late) ∧ m.Computable := by
  simp only [fromStr, isSome_ensureComplete_iff, dateTimeLexicalRep_eq_some_iff]
  constructor
  · rintro ⟨t, fields, hf, hc, hl, hn⟩
    obtain ⟨hw, -⟩ := (dateTimeFields_reads.eq_some_nil_iff rfl).mp hf
    rw [← Grammar.lastDay_eq _ (Grammar.month_mem hw)] at hl
    refine ⟨momentOf fields, Grammar.dateTimeRep_iff.mpr ⟨hw, hl⟩,
      (Grammar.Clock.checked_iff _).mp hc, ?_⟩
    exact (Grammar.Moment.isSome_new_iff rfl).mp (Option.isSome_iff_exists.mpr ⟨t, hn⟩)
  · rintro ⟨m, hm, hc, hr⟩
    obtain ⟨fields, rfl, hf⟩ := Grammar.exists_momentOf hm hr.2
    obtain ⟨hw, hl⟩ := Grammar.dateTimeRep_iff.mp hm
    rw [Grammar.lastDay_eq _ (Grammar.month_mem hw)] at hl
    obtain ⟨t, hn⟩ := Option.isSome_iff_exists.mp ((Grammar.Moment.isSome_new_iff rfl).mpr hr)
    exact ⟨t, fields, hf, (Grammar.Clock.checked_iff _).mpr hc, hl, hn⟩

-- A time on the last day of 1972.
def timeOf (fields : (ℕ × ℕ × ℤ) × Option ℤ) : Grammar.Moment :=
  momentOf (1972, 12, 31, fields.1, fields.2)

namespace Grammar

theorem timeFields_eq_some_iff :
    timeFields word = some (fields, []) ↔ timeRep clock24 word (timeOf fields) := by
  rw [timeFields_reads.eq_some_nil_iff rfl, timeRep_iff]
  constructor
  · rintro ⟨c, _, clock, rfl, hc, z, _, offset, rfl, hz, rfl, rfl⟩
    exact ⟨c, z, by simp, hc, hz, rfl, rfl, rfl⟩
  · rintro ⟨c, z, rfl, hc, hz, -⟩
    exact ⟨c, z, _, rfl, hc, z, [], _, by simp, hz, rfl, rfl⟩

theorem exists_timeOf (h : timeRep clock24 word m) (hr : Decimal.Representable m.timeline) :
    ∃ fields, timeOf fields = m := by
  obtain ⟨x, hx⟩ := Moment.exists_toRat_second hr
  obtain ⟨c, z, -, -, -, hy, hm, hd⟩ := timeRep_iff.mp h
  refine ⟨((m.hour, m.minute, x), m.timezoneOffset), ?_⟩
  simp [timeOf, momentOf, clockOf, hx, ← hy, ← hm, ← hd]

theorem timeRep_unique (h : timeRep clock24 word m) (h' : timeRep clock24 word m')
    (hr : Decimal.Representable m.timeline) (hr' : Decimal.Representable m'.timeline) : m = m' := by
  obtain ⟨fields, rfl⟩ := exists_timeOf h hr
  obtain ⟨fields', rfl⟩ := exists_timeOf h' hr'
  have hf := timeFields_eq_some_iff.mpr h
  rw [timeFields_eq_some_iff.mpr h'] at hf
  cases hf
  rfl

end Grammar

theorem timeLexicalRep_eq_some_iff : timeLexicalRep input = some (t, rest) ↔
    ∃ fields, timeFields input = some (fields, rest) ∧ (timeOf fields).Checked ∧
      Timestamp.new {
        hour           := some <|
          if fields.1.1 = 24 ∧ fields.1.2.1 = 0 ∧ fields.1.2.2 = 0 then 0 else fields.1.1
        minute         := fields.1.2.1
        second         := fields.1.2.2
        timezoneOffset := fields.2 } = some t := by
  simp only [timeLexicalRep, timeFields, timeFrag_eq_some_iff, Frag.bind_eq_some_iff,
    Frag.liftM_eq_some_iff, Frag.pure_eq_some_iff]
  constructor
  · rintro ⟨fields, _, ⟨hf, hc⟩, z, _, hz, hn, rfl⟩
    exact ⟨_, ⟨fields, _, hf, z, _, hz, rfl, rfl⟩, hc, hn⟩
  · rintro ⟨_, ⟨fields, _, hf, z, _, hz, rfl, rfl⟩, hc, hn⟩
    exact ⟨fields, _, ⟨hf, hc⟩, z, _, hz, hn, rfl⟩

-- The day of times.
theorem daysOnTimeline_time : daysOnTimeline 1971 12 30 = 720257 := by decide

theorem second_mem_of_toRat (hl : 0 ≤ Decimal.toRat x) (hu : Decimal.toRat x < 60) :
    0 ≤ x ∧ x < 60 * Decimal.decimalPartPow := by
  have hl : ((0 : ℕ) : ℚ) ≤ Decimal.toRat x := by exact_mod_cast hl
  have hu : Decimal.toRat x < (60 : ℕ) := by exact_mod_cast hu
  exact ⟨by simpa using Decimal.natCast_le_toRat_iff.mp hl,
    by simpa using Decimal.toRat_lt_natCast_iff.mp hu⟩

theorem isSome_new_time (x : ℤ) (offset : Option ℤ) (hh : hour ≤ 24) (hm : minute ≤ 59)
    (hx : 0 ≤ x ∧ x < 60 * Decimal.decimalPartPow)
    (ho : -840 ≤ offset.getD 0 ∧ offset.getD 0 ≤ 840) :
    (Timestamp.new {
      hour           := some hour
      minute         := some minute
      second         := some x
      timezoneOffset := offset }).isSome := by
  have hp : Decimal.decimalPartPow = 10 ^ 18 := rfl
  have hc (y : ℤ) (hy : 0 ≤ y ∧ y < 10 ^ 38) : Decimal.checked y = some y :=
    Int.checked_of_mem (by omega)
  simp only [Timestamp.new, timeOnTimeline, Option.elim_none, Option.getD_none, Option.getD_some,
    Decimal.tryFrom, Decimal.checkedAdd]
  rw [show daysInMonth (some (1971 + 1)) 12 - 1 = 30 from rfl, daysOnTimeline_time, hp,
    hc _ (by omega)]
  simp only [Option.bind_eq_bind, Option.bind_some]
  rw [hc _ (by omega)]
  rfl

theorem representable_timeOf {fields : (ℕ × ℕ × ℤ) × Option ℤ} (h : (timeOf fields).Bounded)
    (ho : -840 ≤ fields.2.getD 0 ∧ fields.2.getD 0 ≤ 840) :
    Decimal.Representable (timeOf fields).timeline := by
  have hh : fields.1.1 ≤ 24 := h.hour_le
  have hm : fields.1.2.1 ≤ 59 := h.minute_le
  have hx := second_mem_of_toRat h.second_nonneg h.second_lt
  have hmin : (timeOf fields).minutes =
      1440 * daysOnTimeline 1971 12 30 + 60 * fields.1.1 + fields.1.2.1 - fields.2.getD 0 := rfl
  have hp : Decimal.decimalPartPow = 10 ^ 18 := rfl
  rw [daysOnTimeline_time] at hmin
  refine ((Grammar.Moment.computable_iff rfl).mpr ⟨?_, ?_⟩).2
  all_goals
    rw [Decimal.checked, ne_eq, Int.checked_eq_none_iff, not_not, hp]
    omega

theorem Time.isSome_fromStr_iff : (Time.fromStr s).isSome ↔
    ∃ m, Grammar.timeRep clock24 s m ∧ (m.Proper ∨ m.Late) ∧ Decimal.Representable m.timeline := by
  simp only [fromStr, isSome_ensureComplete_iff, timeLexicalRep_eq_some_iff]
  constructor
  · rintro ⟨t, fields, hf, hc, -⟩
    have hw := Grammar.timeFields_eq_some_iff.mp hf
    obtain ⟨c, z, -, hb, hz, -⟩ := Grammar.timeRep_iff.mp hw
    exact ⟨timeOf fields, hw, (Grammar.Clock.checked_iff _).mp hc,
      representable_timeOf (Grammar.bounded_of_clock24 hb) (Grammar.timezoneOffset_mem hz)⟩
  · rintro ⟨m, hm, hc, hr⟩
    obtain ⟨fields, rfl⟩ := Grammar.exists_timeOf hm hr
    obtain ⟨c, z, -, hb, hz, -⟩ := Grammar.timeRep_iff.mp hm
    have hb := Grammar.bounded_of_clock24 hb
    have hh : (if fields.1.1 = 24 ∧ fields.1.2.1 = 0 ∧ fields.1.2.2 = 0 then 0
        else fields.1.1) ≤ 24 := by
      have : fields.1.1 ≤ 24 := hb.hour_le
      split <;> omega
    have hx := second_mem_of_toRat hb.second_nonneg hb.second_lt
    obtain ⟨t, hn⟩ := Option.isSome_iff_exists.mp <|
      isSome_new_time fields.1.2.2 fields.2 hh hb.minute_le hx (Grammar.timezoneOffset_mem hz)
    exact ⟨t, fields, Grammar.timeFields_eq_some_iff.mpr hm, (Grammar.Clock.checked_iff _).mpr hc,
      hn⟩

section

variable {Moment : Type} {R Proper Late Representable Computable : Moment → Prop}

-- A parser reads late moments as well, and only those that it can compute.
theorem accepts_iff_accepts_iff
    (hu : ∀ m m', R m → R m' → Representable m → Representable m' → m = m')
    (hc : ∀ m, Computable m → Representable m) (hl : ∀ m, Late m → ¬Proper m) :
    ((∃ m, R m ∧ (Proper m ∨ Late m) ∧ Computable m) ↔ ∃ m, R m ∧ Proper m ∧ Representable m) ↔
      (¬∃ m, R m ∧ Late m ∧ Computable m) ∧
        ¬∃ m, R m ∧ Proper m ∧ Representable m ∧ ¬Computable m where
  mp h := by
    constructor
    · rintro ⟨m, hm, hlm, hcm⟩
      obtain ⟨m', hm', hp, hr⟩ := h.mp ⟨m, hm, .inr hlm, hcm⟩
      obtain rfl := hu m m' hm hm' (hc m hcm) hr
      exact hl m hlm hp
    · rintro ⟨m, hm, hp, hr, hn⟩
      obtain ⟨m', hm', -, hc'⟩ := h.mpr ⟨m, hm, hp, hr⟩
      obtain rfl := hu m m' hm hm' hr (hc m' hc')
      exact hn hc'
  mpr := by
    rintro ⟨hlate, hr⟩
    constructor
    · rintro ⟨m, hm, hp | hlm, hcm⟩
      · exact ⟨m, hm, hp, hc m hcm⟩
      · exact absurd ⟨m, hm, hlm, hcm⟩ hlate
    · rintro ⟨m, hm, hp, hrm⟩
      by_contra hn
      exact hr ⟨m, hm, hp, hrm, fun hcm => hn ⟨m, hm, .inl hp, hcm⟩⟩

end

-- The parsers accept the strings of the grammar whose values are representable, except that they
-- let times after 24:00:00 through whose minute or second is zero, and that the minutes of a
-- `dateTime` have to be representable without its seconds.
theorem fromStr_accepts_iff (s : List Char) :
    (((DateTime.fromStr s).isSome ↔
        ∃ m, Grammar.dateTimeLexicalRep s m ∧ Decimal.Representable m.timeline) ↔
      (¬∃ m, Grammar.dateTimeRep Grammar.lateFrag s m ∧ m.Computable) ∧
        ¬∃ m, Grammar.dateTimeLexicalRep s m ∧ Decimal.Representable m.timeline ∧ ¬m.Computable) ∧
      (((Time.fromStr s).isSome ↔
          ∃ m, Grammar.timeLexicalRep s m ∧ Decimal.Representable m.timeline) ↔
        ¬∃ m, Grammar.timeRep Grammar.lateFrag s m ∧ Decimal.Representable m.timeline) := by
  constructor
  · rw [DateTime.isSome_fromStr_iff]
    simp only [Grammar.dateTimeLexicalRep, Grammar.dateTimeRep_restrict @Grammar.timeFrag_iff,
      Grammar.dateTimeRep_restrict @Grammar.lateFrag_iff, and_assoc]
    exact accepts_iff_accepts_iff (fun _ _ => Grammar.dateTimeRep_unique) (fun _ h => h.2)
      fun _ => Grammar.Clock.Late.not_proper
  · rw [Time.isSome_fromStr_iff]
    simp only [Grammar.timeLexicalRep, Grammar.timeRep_restrict @Grammar.timeFrag_iff,
      Grammar.timeRep_restrict @Grammar.lateFrag_iff, and_assoc]
    rw [accepts_iff_accepts_iff (fun _ _ => Grammar.timeRep_unique) (fun _ h => h)
      fun _ => Grammar.Clock.Late.not_proper]
    simp

-- Half past midnight is read as a time after the end of the day.
theorem Time.not_accepts_iff_halfPast24 :
    ¬((Time.fromStr "24:30:00".toList).isSome ↔
      ∃ m, Grammar.timeLexicalRep "24:30:00".toList m ∧ Decimal.Representable m.timeline) := by
  intro h
  obtain ⟨m, hm, hr⟩ := h.mp (by decide)
  obtain ⟨hm, hp⟩ := (Grammar.timeRep_restrict @Grammar.timeFrag_iff).mp hm
  obtain ⟨fields, rfl⟩ := Grammar.exists_timeOf hm hr
  have hf := Grammar.timeFields_eq_some_iff.mpr hm
  have he : timeFields "24:30:00".toList = some (((24, 30, 0), none), []) := by decide
  rw [he] at hf
  cases hf
  exact absurd (hp rfl).1 (by decide)

end Datatypes
