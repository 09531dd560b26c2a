import OxigraphCloud.Datatypes.Theorems.DateTime
import OxigraphCloud.Primitives.FixedPoint

-- What is read back from a point in time.
namespace Timestamp

open Datatypes Decimal

variable {t : Timestamp}

-- The whole seconds of a time before the year 1 are cut off towards the end of its minute.
def Misread (t : Timestamp) : Prop :=
  t.value.toInt < 0 ∧ 59 * decimalPartPow < t.value.toInt % (60 * decimalPartPow)

instance : Decidable t.Misread := inferInstanceAs (Decidable (_ ∧ _))

-- The minutes on the timeline of the timezone, as far as they are read from the whole seconds.
def localMinutes (t : Timestamp) : ℤ := t.localSeconds / 60

theorem localMinutes_eq (t : Timestamp) :
    t.localMinutes = t.value.toInt / (60 * decimalPartPow) + t.offset +
      if t.Misread then 1 else 0 := by
  unfold localMinutes localSeconds asI128
  rcases le_or_gt 0 t.value.toInt with h | h
  case inl =>
    rw [Int.tdiv_eq_ediv_of_nonneg h, if_neg fun hm => absurd hm.1 (not_lt.mpr h)]
    unfold decimalPartPow
    omega
  case inr =>
    rw [Int.tdiv_of_nonpos h.le]
    split
    case isTrue hm =>
      unfold Misread decimalPartPow at *
      omega
    case isFalse hm =>
      unfold Misread decimalPartPow at *
      omega

theorem yearMonthDay_eq (t : Timestamp) :
    t.yearMonthDay = Datatypes.yearMonthDay (t.localMinutes / 1440) := by
  unfold yearMonthDay localMinutes
  congr 1
  omega

theorem hour_eq (t : Timestamp) : (t.hour : ℤ) = t.localMinutes % 1440 / 60 := by
  unfold hour localMinutes
  omega

theorem minute_eq (t : Timestamp) : (t.minute : ℤ) = t.localMinutes % 60 := by
  unfold minute localMinutes
  omega

theorem isDate (t : Timestamp) : IsDate t.year t.month t.day :=
  (yearMonthDay_spec _).1

theorem daysOnTimeline_eq (t : Timestamp) :
    daysOnTimeline (t.year - 1) t.month (t.day - 1) = t.localMinutes / 1440 := by
  have h := (yearMonthDay_spec (t.localSeconds / 86400)).2
  rw [localMinutes, Int.ediv_ediv_of_nonneg (by decide)]
  exact h

-- All timestamps lie in less than 10 ^ 14 years around the year 1.
theorem year_mem (t : Timestamp) : -10 ^ 14 < t.year ∧ t.year < 10 ^ 14 := by
  have hv := t.value.le_toInt
  have hv' := t.value.toInt_lt
  have ho := (t.timezoneOffset.getD 0).le_toInt
  have ho' := (t.timezoneOffset.getD 0).toInt_lt
  have hl := t.localMinutes_eq
  apply t.isDate.year_mem
  rw [t.daysOnTimeline_eq]
  unfold offset decimalPartPow at hl
  split at hl <;> omega

end Timestamp

namespace Datatypes

structure IsDateTime (year : ℤ) (month day hour minute : ℕ) (second : ℤ)
    (timezoneOffset : Option ℤ) :
    Prop extends IsDate year month day where
  hour_lt       : hour < 24
  minute_lt     : minute < 60
  second_nonneg : 0 ≤ second
  second_lt     : second < 60 * Decimal.decimalPartPow
  offset_mem    : ∀ offset ∈ timezoneOffset, -840 ≤ offset ∧ offset ≤ 840

-- The minutes since the start of the year 1 in UTC.
def minutesOnTimeline (year : ℤ) (month day hour minute : ℕ) (timezoneOffset : Option ℤ) : ℤ :=
  1440 * daysOnTimeline (year - 1) month (day - 1) + 60 * hour + minute - timezoneOffset.getD 0

namespace DateTime

variable {t : Timestamp} {year second : ℤ} {month day hour minute : ℕ} {timezoneOffset : Option ℤ}

theorem value_of_new (h : new year month day hour minute second timezoneOffset = some t) :
    t.value.toInt = minutesOnTimeline year month day hour minute timezoneOffset *
      (60 * Decimal.decimalPartPow) + second := by
  have ⟨value, hv, ht⟩ := Option.bind_eq_some_iff.mp h
  cases ht
  simp only [timeOnTimeline, Option.bind_eq_bind, Option.bind_eq_some_iff] at hv
  obtain ⟨minutes, hm, hv⟩ := hv
  obtain ⟨rfl, -⟩ := Int.checked_eq_some_iff.mp hm
  rw [Int.toInt_ofInt_of_checked (by decide) hv, ← (Int.checked_eq_some_iff.mp hv).1]
  simp only [Option.elim, Option.getD_some, minutesOnTimeline]
  ring

theorem timezoneOffset_of_new (h : new year month day hour minute second timezoneOffset = some t) :
    t.timezoneOffset = timezoneOffset.map (.ofInt 16) := by
  have ⟨value, hv, ht⟩ := Option.bind_eq_some_iff.mp h
  cases ht
  rfl

theorem dateTimeLexicalRep_display (ho : t.ValidOffset) :
    dateTimeLexicalRep (display t) =
      (new t.year t.month t.day t.hour t.minute t.second (t.timezoneOffset.map (·.toInt))).map
        (·, []) := by
  have hy := t.year_mem
  have hd := t.isDate
  have hdi := (daysInMonth_mem (some t.year) t.month).2
  have hm := hd.month_le
  have hm₁ := hd.one_le_month
  have hd₁ := hd.one_le_day
  have hd₂ := hd.day_le
  have hc : Int.checked 64 t.year.natAbs ≠ none := by
    rw [ne_eq, Int.checked_eq_none_iff]
    omega
  have ht : display t = printSign t.year ++ (Nat.padded 4 t.year.natAbs ++ '-' ::
      (Nat.padded 2 t.month ++ '-' :: (Nat.padded 2 t.day ++ 'T' ::
        (displayTime t ++ displayTimezone t)))) := by
    simp [display, displayYear]
  rw [ht]
  unfold dateTimeLexicalRep monthFrag dayFrag
  rw [Frag.bind_of (yearFrag_of hc (noDigit_cons (by decide))), expectChar_cons,
    Frag.bind_of (twoDigitFrag_padded hm₁ hm (by omega) (noDigit_cons (by decide))),
    expectChar_cons,
    Frag.bind_of (twoDigitFrag_padded hd₁ (by omega) (by omega) (noDigit_cons (by decide))),
    expectChar_cons, Frag.bind_of (Timestamp.timeFrag_of t.noDecimal_displayTimezone)]
  dsimp only
  rw [Frag.bind_of (Timestamp.optionalEnd_of ho), validateDayOfMonth, Frag.guard_of hd₂,
    Frag.liftM_eq]
  rfl

theorem fromStr_display (ho : t.ValidOffset) :
    fromStr (display t) =
      new t.year t.month t.day t.hour t.minute t.second (t.timezoneOffset.map (·.toInt)) := by
  rw [fromStr, ensureComplete, dateTimeLexicalRep_display ho]
  cases new t.year t.month t.day t.hour t.minute t.second (t.timezoneOffset.map (·.toInt)) <;> rfl

end DateTime

namespace IsDateTime

variable {t : Timestamp} {year second : ℤ} {month day hour minute : ℕ} {timezoneOffset : Option ℤ}

theorem toInt_offset (h : IsDateTime year month day hour minute second timezoneOffset)
    (ho : offset ∈ timezoneOffset) : (BitVec.ofInt 16 offset).toInt = offset := by
  have := h.offset_mem offset ho
  exact BitVec.toInt_ofInt_eq_self (by decide) (by omega) (by omega)

theorem offset_eq (h : IsDateTime year month day hour minute second timezoneOffset)
    (hn : DateTime.new year month day hour minute second timezoneOffset = some t) :
    t.offset = timezoneOffset.getD 0 := by
  rw [Timestamp.offset, DateTime.timezoneOffset_of_new hn]
  cases hz : timezoneOffset
  case none => rfl
  case some offset => exact h.toInt_offset hz

theorem map_toInt_offset (h : IsDateTime year month day hour minute second timezoneOffset)
    (hn : DateTime.new year month day hour minute second timezoneOffset = some t) :
    t.timezoneOffset.map (·.toInt) = timezoneOffset := by
  rw [DateTime.timezoneOffset_of_new hn]
  cases hz : timezoneOffset
  case none => rfl
  case some offset => exact congrArg some (h.toInt_offset hz)

theorem validOffset (h : IsDateTime year month day hour minute second timezoneOffset)
    (hn : DateTime.new year month day hour minute second timezoneOffset = some t) :
    t.ValidOffset := by
  intro offset ho
  rw [← h.map_toInt_offset hn] at h
  exact h.offset_mem _ (Option.mem_map_of_mem _ ho)

theorem second_eq (h : IsDateTime year month day hour minute second timezoneOffset)
    (hn : DateTime.new year month day hour minute second timezoneOffset = some t) :
    t.second = second := by
  rw [Timestamp.second_eq, DateTime.value_of_new hn, Int.add_comm, Int.add_mul_emod_self_right,
    Int.emod_eq_of_lt h.second_nonneg h.second_lt]

theorem localMinutes_eq (h : IsDateTime year month day hour minute second timezoneOffset)
    (hn : DateTime.new year month day hour minute second timezoneOffset = some t) :
    t.localMinutes = 1440 * daysOnTimeline (year - 1) month (day - 1) + 60 * hour + minute +
      if t.Misread then 1 else 0 := by
  have hd : t.value.toInt / (60 * Decimal.decimalPartPow) =
      minutesOnTimeline year month day hour minute timezoneOffset := by
    rw [DateTime.value_of_new hn, Int.add_comm, Int.add_mul_ediv_right _ _ (by decide),
      Int.ediv_eq_zero_of_lt h.second_nonneg h.second_lt, zero_add]
  rw [Timestamp.localMinutes_eq, hd, h.offset_eq hn, minutesOnTimeline]
  ring

theorem misread_iff (h : IsDateTime year month day hour minute second timezoneOffset)
    (hn : DateTime.new year month day hour minute second timezoneOffset = some t) :
    t.Misread ↔ minutesOnTimeline year month day hour minute timezoneOffset < 0 ∧
      59 * Decimal.decimalPartPow < second := by
  have h₀ := h.second_nonneg
  have h₁ := h.second_lt
  rw [Timestamp.Misread, ← Timestamp.second_eq, h.second_eq hn, DateTime.value_of_new hn]
  unfold Decimal.decimalPartPow at *
  omega

-- The components are read back unless the time lies in the last second of a minute before year 1.
theorem components_iff (h : IsDateTime year month day hour minute second timezoneOffset)
    (hn : DateTime.new year month day hour minute second timezoneOffset = some t) :
    (t.year, t.month, t.day, t.hour, t.minute, t.second) =
      (year, month, day, hour, minute, second) ↔ ¬t.Misread := by
  have hl := h.localMinutes_eq hn
  have hh := h.hour_lt
  have hm := h.minute_lt
  have hmin := t.minute_eq
  constructor
  case mp =>
    intro hc hr
    have : t.minute = minute := by simp_all
    rw [hl, if_pos hr] at hmin
    omega
  case mpr =>
    intro hr
    rw [if_neg hr] at hl
    have hdays : t.localMinutes / 1440 = daysOnTimeline (year - 1) month (day - 1) := by omega
    have hdate : t.yearMonthDay = (year, month, day) := by
      rw [t.yearMonthDay_eq, hdays, yearMonthDay_daysOnTimeline h.toIsDate]
    have hhour := t.hour_eq
    simp only [Timestamp.year, Timestamp.month, Timestamp.day, hdate, h.second_eq hn, Prod.mk.injEq,
      true_and, and_true]
    omega

-- A point in time is read back from its components, and from its text, unless it lies in the last
-- second of a minute before the year 1.
theorem readBack_iff (h : IsDateTime year month day hour minute second timezoneOffset)
    (hn : DateTime.new year month day hour minute second timezoneOffset = some t) :
    ((t.year, t.month, t.day, t.hour, t.minute, t.second) =
        (year, month, day, hour, minute, second) ∧
      DateTime.fromStr (DateTime.display t) = some t) ↔
      ¬(minutesOnTimeline year month day hour minute timezoneOffset < 0 ∧
        59 * Decimal.decimalPartPow < second) := by
  rw [← h.misread_iff hn, ← h.components_iff hn, and_iff_left_iff_imp]
  intro hc
  rw [DateTime.fromStr_display (h.validOffset hn), h.map_toInt_offset hn]
  simp_all

-- 2024-02-29T12:30:59.5+01:00
theorem readBack_leapDay :
    ∃ t, DateTime.new 2024 2 29 12 30 59500000000000000000 (some 60) = some t ∧
      (t.year, t.month, t.day, t.hour, t.minute, t.second) =
        (2024, 2, 29, 12, 30, 59500000000000000000) ∧
      DateTime.fromStr (DateTime.display t) = some t := by
  have h : IsDateTime 2024 2 29 12 30 59500000000000000000 (some 60) := by
    constructor
    · constructor <;> decide
    all_goals decide
  exact ⟨_, rfl, (readBack_iff h rfl).mpr (by decide)⟩

-- 0000-12-31T23:59:59.5 is read back as 0001-01-01T00:00:59.5.
theorem not_readBack_yearZero :
    IsDateTime 0 12 31 23 59 59500000000000000000 none ∧
      ∃ t, DateTime.new 0 12 31 23 59 59500000000000000000 none = some t ∧
        (t.year, t.month, t.day, t.hour, t.minute, t.second) =
          (1, 1, 1, 0, 0, 59500000000000000000) := by
  refine ⟨?_, _, rfl, by decide⟩
  constructor
  · constructor <;> decide
  all_goals decide

end IsDateTime

end Datatypes
