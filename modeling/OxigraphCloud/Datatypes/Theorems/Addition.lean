import OxigraphCloud.Datatypes.Theorems.Duration

namespace Datatypes

variable {y : ℤ} {m d : ℕ} {months : ℤ}

-- The month that comes a number of months after the given one.
def monthsLater (y : ℤ) (m : ℕ) (months : ℤ) : ℤ × ℕ :=
  ((12 * y + (m - 1) + months) / 12, ((12 * y + (m - 1) + months) % 12).toNat + 1)

-- The day of that month, which is bounded by the length of the month.
def dayOfMonthsLater (y : ℤ) (m d : ℕ) (months : ℤ) : ℤ :=
  let later := monthsLater y m months
  monthStart later.1 later.2 + min d (daysInMonth (some later.1) later.2) - 1

theorem monthsLater_spec (y : ℤ) (m : ℕ) (months : ℤ) :
    (1 ≤ (monthsLater y m months).2 ∧ (monthsLater y m months).2 ≤ 12) ∧
      12 * (monthsLater y m months).1 + (monthsLater y m months).2 = 12 * y + m + months := by
  unfold monthsLater
  omega

theorem isDate_monthsLater (hd : 1 ≤ d) (y : ℤ) (m : ℕ) (months : ℤ) :
    IsDate (monthsLater y m months).1 (monthsLater y m months).2
      (min d (daysInMonth (some (monthsLater y m months).1) (monthsLater y m months).2)) := by
  have h := (monthsLater_spec y m months).1
  have := (daysInMonth_mem (some (monthsLater y m months).1) (monthsLater y m months).2).1
  exact ⟨h.1, h.2, by omega, by omega⟩

theorem dayOfMonthsLater_eq (hd : 1 ≤ d) :
    dayOfMonthsLater y m d months =
      daysOnTimeline ((monthsLater y m months).1 - 1) (monthsLater y m months).2
        (min d (daysInMonth (some (monthsLater y m months).1) (monthsLater y m months).2) - 1) := by
  have := (isDate_monthsLater hd y m months).one_le_day
  rw [daysOnTimeline_eq_monthStart, dayOfMonthsLater]
  omega

theorem IsDate.dayOfMonthsLater_zero (h : IsDate y m d) :
    dayOfMonthsLater y m d 0 = daysOnTimeline (y - 1) m (d - 1) := by
  have hm₁ := h.one_le_month
  have hm₂ := h.month_le
  have hd₁ := h.one_le_day
  have hlater : monthsLater y m 0 = (y, m) := by
    unfold monthsLater
    congr 1 <;> omega
  rw [dayOfMonthsLater, hlater, min_eq_left h.day_le, daysOnTimeline_eq_monthStart]
  dsimp only
  omega

-- The month that is found. The month before January is taken for February.
def foundMonth (y : ℤ) (m : ℕ) (months : ℤ) : ℤ × ℕ :=
  if m + months = 0 then (y, 2) else monthsLater y m months

theorem foundMonth_mem (y : ℤ) (m : ℕ) (months : ℤ) :
    1 ≤ (foundMonth y m months).2 ∧ (foundMonth y m months).2 ≤ 12 := by
  unfold foundMonth
  split
  case isTrue => simp
  case isFalse => exact (monthsLater_spec y m months).1

-- The month may first be written as month 13.
theorem normalizeMonth_found (hy : -10 ^ 14 < y ∧ y < 10 ^ 14)
    (hc : -2 ^ 63 < m + months ∧ m + months < 2 ^ 63) :
    ∃ yr mo, normalizeMonth y (m + months) = some (yr, mo) ∧
      normalizeMonth yr mo = some (foundMonth y m months) ∧
      daysInMonth (some yr) mo =
        daysInMonth (some (foundMonth y m months).1) (foundMonth y m months).2 := by
  unfold foundMonth
  split
  case isTrue h₀ =>
    refine ⟨y, 2, ?_, normalizeMonth_of_mem (by decide) (by omega), rfl⟩
    rw [h₀, normalizeMonth_zero (by omega)]
  case isFalse h₀ =>
    obtain ⟨yr, mo, hn, hi, hm₁, hm₂, -⟩ :=
      normalizeMonth_of_ne_zero h₀ hc (by omega : -2 ^ 62 ≤ y ∧ _)
    refine ⟨yr, mo, hn, ?_⟩
    have hspec := monthsLater_spec y m months
    generalize monthsLater y m months = later at *
    obtain ⟨y', m'⟩ := later
    rcases (by omega : mo ≤ 12 ∨ mo = 13) with h₁ | rfl
    case inl =>
      obtain ⟨rfl, rfl⟩ : yr = y' ∧ mo = m' := by omega
      exact ⟨normalizeMonth_of_mem (by omega) (by omega), rfl⟩
    case inr =>
      obtain ⟨rfl, rfl⟩ : yr + 1 = y' ∧ m' = 1 := by omega
      exact ⟨normalizeMonth_of_pos (by decide) (by omega), rfl⟩

end Datatypes

namespace Timestamp

open Datatypes Decimal

variable {t : Timestamp} {y y₁ : ℤ} {m d m₁ d₁ : ℕ} {time time₁ months seconds value value₁ : ℤ}

-- The date and the time of the day at a point in time in its timezone.
structure IsLocal (t : Timestamp) (y : ℤ) (m d : ℕ) (time : ℤ) : Prop extends IsDate y m d where
  time_mem : 0 ≤ time ∧ time < 86400 * decimalPartPow
  value_eq : t.value.toInt + 60 * decimalPartPow * t.offset =
    86400 * decimalPartPow * daysOnTimeline (y - 1) m (d - 1) + time

-- The point in time that is reached after some months and then some seconds.
def IsSum (t : Timestamp) (months seconds value : ℤ) : Prop :=
  ∃ y m d time, t.IsLocal y m d time ∧
    value + 60 * decimalPartPow * t.offset =
      86400 * decimalPartPow * dayOfMonthsLater y m d months + time + seconds

theorem IsLocal.unique (h : t.IsLocal y m d time) (h₁ : t.IsLocal y₁ m₁ d₁ time₁) :
    (y, m, d) = (y₁, m₁, d₁) ∧ time = time₁ := by
  have ht := h.time_mem
  have ht₁ := h₁.time_mem
  have hv := h.value_eq
  have hv₁ := h₁.value_eq
  unfold decimalPartPow at *
  exact ⟨daysOnTimeline_injective h.toIsDate h₁.toIsDate (by omega), by omega⟩

theorem exists_isLocal (t : Timestamp) : ∃ y m d time, t.IsLocal y m d time := by
  set n := t.value.toInt + 60 * decimalPartPow * t.offset with hn
  have hs := Datatypes.yearMonthDay_spec (n / (86400 * decimalPartPow))
  have hm := Int.emod_nonneg n (by decide : (86400 * decimalPartPow : ℤ) ≠ 0)
  have hl := Int.emod_lt_of_pos n (by decide : (0 : ℤ) < 86400 * decimalPartPow)
  refine ⟨_, _, _, n % (86400 * decimalPartPow), hs.1, ⟨hm, hl⟩, ?_⟩
  rw [hs.2, ← hn, Int.mul_ediv_add_emod]

-- The components that are read are the date and the time of the day, or those one minute later.
theorem value_eq_localMinutes (t : Timestamp) :
    t.value.toInt + 60 * decimalPartPow * t.offset =
      60 * decimalPartPow * (t.localMinutes - if t.Misread then 1 else 0) + t.second := by
  have h := Int.mul_ediv_add_emod t.value.toInt (60 * decimalPartPow)
  rw [t.localMinutes_eq, t.second_eq]
  linear_combination -h

-- The time of the day that is read.
def readTime (t : Timestamp) : ℤ := 60 * decimalPartPow * (60 * t.hour + t.minute) + t.second

theorem readTime_eq (t : Timestamp) :
    t.readTime = 60 * decimalPartPow * (t.localMinutes % 1440) + t.second := by
  rw [readTime, t.hour_eq, t.minute_eq]
  congr 2
  omega

theorem readTime_mem (t : Timestamp) : 0 ≤ t.readTime ∧ t.readTime < 86400 * decimalPartPow := by
  have h₀ := t.second_nonneg
  have h₁ := t.second_lt
  rw [readTime_eq]
  unfold decimalPartPow at *
  omega

theorem isLocal_of_not_misread (h : ¬t.Misread) : t.IsLocal t.year t.month t.day t.readTime := by
  refine ⟨t.isDate, t.readTime_mem, ?_⟩
  rw [t.value_eq_localMinutes, if_neg h, t.daysOnTimeline_eq, t.readTime_eq]
  unfold decimalPartPow
  omega

theorem time_ne_of_misread (hm : t.Misread) (h : t.IsLocal y m d time) : time ≠ t.readTime := by
  have hv := h.value_eq
  rw [t.value_eq_localMinutes, if_pos hm] at hv
  rw [t.readTime_eq]
  have h₀ := t.second_nonneg
  have h₁ := t.second_lt
  have ht := h.time_mem
  unfold decimalPartPow at *
  omega

theorem IsSum.unique (h : t.IsSum months seconds value) (h₁ : t.IsSum months seconds value₁) :
    value = value₁ := by
  obtain ⟨y, m, d, time, hl, hv⟩ := h
  obtain ⟨y₁, m₁, d₁, time₁, hl₁, hv₁⟩ := h₁
  have ⟨hd, ht⟩ := hl.unique hl₁
  cases hd
  omega

theorem isSum_zero_iff : t.IsSum 0 seconds value ↔ value = t.value.toInt + seconds := by
  constructor
  case mp =>
    rintro ⟨y, m, d, time, hl, hv⟩
    have he := hl.value_eq
    rw [hl.dayOfMonthsLater_zero] at hv
    omega
  case mpr =>
    rintro rfl
    obtain ⟨y, m, d, time, hl⟩ := t.exists_isLocal
    have he := hl.value_eq
    exact ⟨y, m, d, time, hl, by rw [hl.dayOfMonthsLater_zero]; omega⟩

-- A sum that can be represented is reached in few months.
theorem IsSum.months_mem {v : BitVec 128} (h : t.IsSum months seconds v.toInt)
    (hs : -2 ^ 127 ≤ seconds ∧ seconds ≤ 2 ^ 127) : -2 ^ 62 < months ∧ months < 2 ^ 62 := by
  obtain ⟨y, m, d, time, hl, hv⟩ := h
  have hv₀ := v.le_toInt
  have hv₁ := v.toInt_lt
  have ht₀ := t.value.le_toInt
  have ht₁ := t.value.toInt_lt
  have ho := (t.timezoneOffset.getD 0).le_toInt
  have ho' := (t.timezoneOffset.getD 0).toInt_lt
  have hle := hl.value_eq
  have htime := hl.time_mem
  have hspec := monthsLater_spec y m months
  have hm₁ := hl.month_le
  rw [dayOfMonthsLater_eq hl.one_le_day] at hv
  unfold offset decimalPartPow at *
  have hy := hl.year_mem (by omega)
  have hy' := (isDate_monthsLater hl.one_le_day y m months).year_mem (by omega)
  omega

end Timestamp

namespace Datatypes.DateTime

open Decimal

variable {t : Timestamp} {du : Duration} {v : BitVec 128}

theorem exists_checked_iff {w : ℕ} {x : ℤ} {p : ℤ → Prop} :
    (∃ y, Int.checked w x = some y ∧ p y) ↔ Int.checked w x ≠ none ∧ p x := by
  cases h : Int.checked w x
  case none => simp
  case some =>
    obtain ⟨rfl, -⟩ := Int.checked_eq_some_iff.mp h
    simp

theorem checked_bind_eq_some_iff {w : ℕ} {x : ℤ} {f : ℤ → Option α} {a : α} :
    (Int.checked w x).bind f = some a ↔ Int.checked w x ≠ none ∧ f x = some a := by
  rw [Option.bind_eq_some_iff, exists_checked_iff]

theorem toInt_eq_iff {x : ℤ} : v.toInt = x ↔ Int.checked 128 x ≠ none ∧ BitVec.ofInt 128 x = v where
  mp := by
    rintro rfl
    simp [Int.checked_toInt]
  mpr := by
    rintro ⟨hc, rfl⟩
    exact Int.toInt_ofInt_of_checked (by decide) (Int.checked_of_mem (by simpa using hc))

theorem new_eq_some_iff {y s : ℤ} {m d h mi : ℕ} {offset : Option ℤ} {z : Option (BitVec 16)} :
    new y m d h mi s offset = some ⟨v, z⟩ ↔
      checked (minutesOnTimeline y m d h mi offset * (60 * decimalPartPow)) ≠ none ∧
        v.toInt = minutesOnTimeline y m d h mi offset * (60 * decimalPartPow) + s ∧
        z = offset.map (.ofInt 16) := by
  have hm : (86400 * daysOnTimeline (y - 1) m (d - 1) + 3600 * h + 60 * (mi - offset.getD 0)) *
      decimalPartPow = minutesOnTimeline y m d h mi offset * (60 * decimalPartPow) := by
    rw [minutesOnTimeline]
    ring
  unfold new Timestamp.new timeOnTimeline
  simp only [Option.elim, Option.getD_some, tryFrom, checkedAdd, checked, Option.bind_eq_bind,
    Option.bind_assoc, checked_bind_eq_some_iff, hm, Option.pure_def, Option.some.injEq,
    Timestamp.mk.injEq, toInt_eq_iff, and_assoc, eq_comm (a := z)]

-- The sum by the calendar.
def plus (t : Timestamp) (du : Duration) : Option Timestamp := do
  Timestamp.new (← dateTimePlusDuration du (properties t))

theorem map_ofInt_toInt (z : Option (BitVec 16)) : (z.map (·.toInt)).map (.ofInt 16) = z := by
  cases z <;> simp

theorem plus_eq_some_iff (t : Timestamp) (du : Duration) (t' : Timestamp) :
    plus t du = some t' ↔
      Int.checked 64 (t.month + du.allMonths) ≠ none ∧
      ∃ yr mo, normalizeMonth t.year (t.month + du.allMonths) = some (yr, mo) ∧
        checked (t.second + du.allSeconds) ≠ none ∧
        ∃ y m d h mi s,
          normalizeSecond yr mo (min t.day (daysInMonth (some yr) mo) : ℕ) t.hour t.minute
            (t.second + du.allSeconds) = some (y, m, d, h, mi, s) ∧
          new y m d h mi s (t.timezoneOffset.map (·.toInt)) = some t' := by
  unfold plus dateTimePlusDuration checkedAdd checked properties
  simp only [Option.getD_some, Option.bind_eq_bind, Option.map_some]
  rw [Option.bind_assoc, checked_bind_eq_some_iff, Option.bind_assoc]
  simp only [Option.bind_assoc, Option.bind_eq_some_iff, Prod.exists, exists_checked_iff,
    Option.pure_def, Option.some.injEq, exists_eq_left']
  exact Iff.rfl

theorem getD_map_toInt (t : Timestamp) : (t.timezoneOffset.map (·.toInt)).getD 0 = t.offset := by
  unfold Timestamp.offset
  cases t.timezoneOffset <;> rfl

-- The minutes and seconds after all carries.
theorem minutesOnTimeline_carried {hr mi se : ℤ} (hc : CarriesNonneg hr mi se) (y : ℤ) (m d : ℕ)
    (offset : Option ℤ) :
    minutesOnTimeline y m d ((carriedHour hr mi se).tmod 24).toNat
        ((carriedMinute mi se).tmod 60).toNat offset * (60 * decimalPartPow) +
      se.tmod (60 * decimalPartPow) + 60 * decimalPartPow * offset.getD 0 =
      86400 * decimalPartPow * (daysOnTimeline (y - 1) m (d - 1) - carriedDay hr mi se) +
        60 * decimalPartPow * (60 * hr + mi) + se := by
  have h := carried_eq hr mi se
  rw [minutesOnTimeline, Int.toNat_of_nonneg hc.1, Int.toNat_of_nonneg hc.2]
  linear_combination h

end Datatypes.DateTime

namespace Timestamp

open Datatypes Decimal

variable {t : Timestamp} {months seconds value : ℤ}

-- When a duration with months is added in the right way.
structure Regular (t : Timestamp) (months seconds : ℤ) : Prop where
  not_misread : ¬t.Misread
  month_ne    : t.month + months ≠ 0
  second_mem  : checked (t.second + seconds) ≠ none
  carries     : CarriesNonneg t.hour t.minute (t.second + seconds)
  day_mem     : yearStart (monthsLater t.year t.month months).1 ≤
    dayOfMonthsLater t.year t.month t.day months +
      carriedDay t.hour t.minute (t.second + seconds)
  value_mem   : ∀ value, t.IsSum months seconds value →
    checked (value - (t.second + seconds).tmod (60 * decimalPartPow)) ≠ none

-- The day that is found. Days that are counted down do not leave the year of the month.
def foundDay (t : Timestamp) (months seconds : ℤ) : ℤ :=
  let found := foundMonth t.year t.month months
  wrapDay found.1 (monthStart found.1 found.2 +
    ((min t.day (daysInMonth (some found.1) found.2) : ℕ) +
      carriedDay t.hour t.minute (t.second + seconds)) - 1)

def foundValue (t : Timestamp) (months seconds : ℤ) : ℤ :=
  86400 * decimalPartPow * (t.foundDay months seconds -
    carriedDay t.hour t.minute (t.second + seconds)) + t.readTime + seconds -
      60 * decimalPartPow * t.offset

-- When something is found.
structure Found (t : Timestamp) (months seconds : ℤ) : Prop where
  month_mem  : Int.checked 64 (t.month + months) ≠ none
  second_mem : checked (t.second + seconds) ≠ none
  carries    : CarriesNonneg t.hour t.minute (t.second + seconds)
  minute_mem : checked (t.foundValue months seconds -
    (t.second + seconds).tmod (60 * decimalPartPow)) ≠ none

-- December comes before January, which comes before February.
theorem lt_foundDay (h₀ : t.month + months = 0) :
    dayOfMonthsLater t.year t.month t.day months +
      carriedDay t.hour t.minute (t.second + seconds) < t.foundDay months seconds := by
  have hdate := t.isDate
  have hlater : monthsLater t.year t.month months = (t.year - 1, 12) := by
    unfold monthsLater
    congr 1 <;> omega
  have hs₁ : monthStart (t.year - 1) 13 = _ := monthStart_succ (by decide : 1 ≤ 12)
  have hs₂ : monthStart t.year 2 = _ := monthStart_succ (by decide : 1 ≤ 1)
  have h₁₂ : daysInMonth (some (t.year - 1)) 12 = 31 := rfl
  have h₁ : daysInMonth (some t.year) 1 = 31 := rfl
  have h₂ := daysInMonth_mem (some t.year) 2
  rw [monthStart_thirteen, sub_add_cancel] at hs₁
  rw [dayOfMonthsLater, hlater, foundDay, foundMonth, if_pos h₀]
  dsimp only
  refine lt_of_lt_of_le ?_ (le_wrapDay ..)
  have := hdate.one_le_day
  omega

theorem foundDay_eq (h₀ : t.month + months ≠ 0) : t.foundDay months seconds =
    wrapDay (monthsLater t.year t.month months).1 (dayOfMonthsLater t.year t.month t.day months +
      carriedDay t.hour t.minute (t.second + seconds)) := by
  rw [foundDay, foundMonth, if_neg h₀, dayOfMonthsLater]
  congr 1
  push_cast
  ring

-- The day and the time of the day that are found are those of the sum.
theorem foundValue_eq_iff (h : t.IsSum months seconds value) :
    t.foundValue months seconds = value ↔ ¬t.Misread ∧ t.month + months ≠ 0 ∧
      yearStart (monthsLater t.year t.month months).1 ≤
        dayOfMonthsLater t.year t.month t.day months +
          carriedDay t.hour t.minute (t.second + seconds) := by
  obtain ⟨y, m, d, time, hl, hv⟩ := h
  have htime := hl.time_mem
  have hread := t.readTime_mem
  have he : t.foundValue months seconds = value ↔
      t.foundDay months seconds = dayOfMonthsLater y m d months +
        carriedDay t.hour t.minute (t.second + seconds) ∧ time = t.readTime := by
    unfold foundValue
    unfold decimalPartPow at *
    omega
  rw [he]
  constructor
  case mp =>
    rintro ⟨hd, ht⟩
    have hmr : ¬t.Misread := fun hmr => time_ne_of_misread hmr hl ht
    have ⟨hdate, _⟩ := hl.unique (isLocal_of_not_misread hmr)
    cases hdate
    have h₀ : t.month + months ≠ 0 := fun h₀ => (lt_foundDay h₀).ne' hd
    refine ⟨hmr, h₀, ?_⟩
    rw [foundDay_eq h₀] at hd
    exact hd ▸ yearStart_le_wrapDay ..
  case mpr =>
    rintro ⟨hmr, h₀, hd⟩
    have ⟨hdate, ht⟩ := hl.unique (isLocal_of_not_misread hmr)
    cases hdate
    rw [foundDay_eq h₀, wrapDay, if_pos hd]
    exact ⟨rfl, ht⟩

-- What is found is the sum if it can be represented, and regular.
theorem found_iff_regular {v : BitVec 128} (hs : t.IsSum months seconds v.toInt)
    (hsec : -2 ^ 127 ≤ seconds ∧ seconds ≤ 2 ^ 127) :
    t.Found months seconds ∧ v.toInt = t.foundValue months seconds ↔ t.Regular months seconds := by
  constructor
  case mp =>
    rintro ⟨h, hv⟩
    have ⟨hmr, h₀, hd⟩ := (foundValue_eq_iff hs).mp hv.symm
    refine ⟨hmr, h₀, h.second_mem, h.carries, hd, fun value hs' => ?_⟩
    rw [hs'.unique hs, hv]
    exact h.minute_mem
  case mpr =>
    intro h
    have hv := (foundValue_eq_iff hs).mpr ⟨h.not_misread, h.month_ne, h.day_mem⟩
    have hm := hs.months_mem hsec
    have hdate := t.isDate
    have hm₁ := hdate.one_le_month
    have hm₂ := hdate.month_le
    refine ⟨⟨?_, h.second_mem, h.carries, ?_⟩, hv.symm⟩
    · rw [checked_i64 (by omega)]
      simp
    · rw [hv]
      exact h.value_mem _ hs

end Timestamp

namespace Datatypes.DateTime

open Decimal

variable {t : Timestamp} {du : Duration} {v : BitVec 128} {months seconds : ℤ}

theorem normalizeSecond_clamped (hs : checked (t.second + seconds) ≠ none) (yr : ℤ) (mo : ℕ) :
    normalizeSecond yr mo (min t.day (daysInMonth (some yr) mo) : ℕ) t.hour t.minute
        (t.second + seconds) =
      if CarriesNonneg t.hour t.minute (t.second + seconds) then
        (normalizeDay yr mo ((min t.day (daysInMonth (some yr) mo) : ℕ) +
          carriedDay t.hour t.minute (t.second + seconds))).map fun (y, m, d) =>
            (y, m, d, ((carriedHour t.hour t.minute (t.second + seconds)).tmod 24).toNat,
              ((carriedMinute t.minute (t.second + seconds)).tmod 60).toNat,
              (t.second + seconds).tmod (60 * decimalPartPow))
      else
        none := by
  have hh := t.hour_lt
  have hmi := t.minute_lt
  have hd := (daysInMonth_mem (some yr) mo).2
  exact normalizeSecond_eq (by omega) (by omega) (by simpa [checked] using hs) (by omega) yr mo

-- No minute and no hour may be negative.
theorem plus_eq_none (h : ¬CarriesNonneg t.hour t.minute (t.second + du.allSeconds)) :
    plus t du = none := by
  rw [Option.eq_none_iff_forall_ne_some]
  intro t' ht
  obtain ⟨-, yr, mo, -, hs, _, _, _, _, _, _, hsec, -⟩ := (plus_eq_some_iff t du t').mp ht
  rw [normalizeSecond_clamped hs, if_neg h] at hsec
  contradiction

theorem carriedDay_mem (hs : checked (t.second + seconds) ≠ none) :
    -2 ^ 53 < carriedDay t.hour t.minute (t.second + seconds) ∧
      carriedDay t.hour t.minute (t.second + seconds) < 2 ^ 53 := by
  have hh := t.hour_lt
  have hmi := t.minute_lt
  have hq := tdiv_minute_mem (by simpa [checked] using hs : -2 ^ 127 ≤ t.second + seconds ∧ _)
  apply Datatypes.carriedDay_mem (by omega)
  unfold carriedMinute
  omega

theorem normalizeDay_found (hm : -2 ^ 63 ≤ months)
    (hc : Int.checked 64 (t.month + months) ≠ none) (hs : checked (t.second + seconds) ≠ none) :
    ∃ yr mo y m d, normalizeMonth t.year (t.month + months) = some (yr, mo) ∧
      normalizeDay yr mo ((min t.day (daysInMonth (some yr) mo) : ℕ) +
        carriedDay t.hour t.minute (t.second + seconds)) = some (y, m, d) ∧
      daysOnTimeline (y - 1) m (d - 1) = t.foundDay months seconds := by
  have hy := t.year_mem
  have hday := carriedDay_mem hs
  have hm₁ := t.isDate.one_le_month
  have hmem : -2 ^ 63 ≤ t.month + months ∧ t.month + months < 2 ^ 63 := by simpa using hc
  obtain ⟨yr, mo, hmonth, hn, hdim⟩ := normalizeMonth_found hy
    (by omega : -2 ^ 63 < t.month + months ∧ _)
  have hfound := foundMonth_mem t.year t.month months
  have hyear : -2 ^ 61 ≤ (foundMonth t.year t.month months).1 ∧
      (foundMonth t.year t.month months).1 < 2 ^ 61 := by
    have hspec := monthsLater_spec t.year t.month months
    unfold foundMonth
    split <;> omega
  rw [Timestamp.foundDay]
  generalize foundMonth t.year t.month months = found at *
  have hdl := daysInMonth_mem (some found.1) found.2
  obtain ⟨y, m, d, hr, -, hord⟩ := normalizeDayLoop_spec hfound hyear
    (by omega : -2 ^ 61 ≤ ((min t.day (daysInMonth (some found.1) found.2) : ℕ) +
      carriedDay t.hour t.minute (t.second + seconds) : ℤ) ∧ _)
  refine ⟨yr, mo, y, m, d, hmonth, ?_, hord⟩
  rw [normalizeDay, hn, hdim]
  exact hr

theorem plus_eq_some_iff_found (t : Timestamp) (du : Duration) (t' : Timestamp) :
    plus t du = some t' ↔ t.Found du.allMonths du.allSeconds ∧
      t'.value.toInt = t.foundValue du.allMonths du.allSeconds ∧
      t'.timezoneOffset = t.timezoneOffset := by
  have hm : -2 ^ 63 ≤ du.allMonths := du.yearMonth.le_toInt
  have hc (h : CarriesNonneg t.hour t.minute (t.second + du.allSeconds)) (y : ℤ) (m d : ℕ) :=
    minutesOnTimeline_carried h y m d (t.timezoneOffset.map (·.toInt))
  simp only [getD_map_toInt] at hc
  rw [plus_eq_some_iff]
  constructor
  case mp =>
    rintro ⟨hm', yr, mo, hn, hs, y, m, d, h, mi, s, hsec, hnew⟩
    rw [normalizeSecond_clamped hs] at hsec
    split at hsec
    case isFalse => contradiction
    case isTrue hcarry =>
      obtain ⟨⟨y, m, d⟩, hday, heq⟩ := Option.map_eq_some_iff.mp hsec
      cases heq
      obtain ⟨_, _, _, _, _, hn', hday', hd⟩ := normalizeDay_found hm hm' hs
      cases hn.symm.trans hn'
      cases hday.symm.trans hday'
      obtain ⟨hv, he, hz⟩ := new_eq_some_iff.mp hnew
      have hfound : t'.value.toInt = t.foundValue du.allMonths du.allSeconds := by
        have hc := hc hcarry y m d
        rw [hd] at hc
        rw [he, Timestamp.foundValue, Timestamp.readTime]
        linear_combination hc
      refine ⟨⟨hm', hs, hcarry, ?_⟩, hfound, hz.trans (map_ofInt_toInt _)⟩
      rwa [← hfound, he, add_sub_cancel_right]
  case mpr =>
    rintro ⟨⟨hm', hs, hcarry, hv⟩, hfound, hz⟩
    obtain ⟨yr, mo, y, m, d, hn, hday, hd⟩ := normalizeDay_found hm hm' hs
    have hsec := normalizeSecond_clamped hs yr mo
    rw [if_pos hcarry, hday, Option.map_some] at hsec
    refine ⟨hm', yr, mo, hn, hs, y, m, d, _, _, _, hsec, new_eq_some_iff.mpr ?_⟩
    have hc := hc hcarry y m d
    set minutes := minutesOnTimeline y m d _ _ _ with hmin
    have he : t'.value.toInt = minutes * (60 * decimalPartPow) +
        (t.second + du.allSeconds).tmod (60 * decimalPartPow) := by
      rw [hd] at hc
      rw [hfound, Timestamp.foundValue, Timestamp.readTime]
      linear_combination -hc
    rw [← hfound, he, add_sub_cancel_right] at hv
    exact ⟨hv, he, hz.trans (map_ofInt_toInt _).symm⟩

-- An addition returns its exact outcome if this can be represented, and otherwise nothing.
def Adds (t : Timestamp) (months seconds : ℤ) (result : Option Timestamp) : Prop :=
  ∀ value, t.IsSum months seconds value →
    result = (checked value).map fun value => { t with value := .ofInt 128 value }

-- When the sum of a point in time and a duration is found. Outside of the range nothing may be
-- found that lies in the range.
def Addable (t : Timestamp) (months seconds : ℤ) : Prop :=
  months ≠ 0 → ∀ value, t.IsSum months seconds value →
    if checked value = none then
      ¬(t.Found months seconds ∧ checked (t.foundValue months seconds) ≠ none)
    else
      t.Regular months seconds

theorem adds_iff {result : Option Timestamp} (hsec : -2 ^ 127 ≤ seconds ∧ seconds ≤ 2 ^ 127)
    (h₀ : months ≠ 0) (h : ∀ t', result = some t' ↔ t.Found months seconds ∧
      t'.value.toInt = t.foundValue months seconds ∧ t'.timezoneOffset = t.timezoneOffset) :
    Adds t months seconds result ↔ Addable t months seconds := by
  rw [Addable, imp_iff_right h₀]
  refine forall_congr' fun value => imp_congr_right fun hs => ?_
  split
  case isTrue hn =>
    rw [hn, Option.map_none, Option.eq_none_iff_forall_ne_some, not_and, not_not]
    constructor
    case mp =>
      intro hr hf
      by_contra hc
      have hc : Int.checked 128 (t.foundValue months seconds) = _ :=
        Int.checked_of_mem (by simpa [checked] using hc)
      exact hr { t with value := .ofInt 128 (t.foundValue months seconds) } <| (h _).mpr
        ⟨hf, Int.toInt_ofInt_of_checked (by decide) hc, rfl⟩
    case mpr =>
      intro hf t' ht
      obtain ⟨hfound, hv, _⟩ := (h t').mp ht
      have := hf hfound
      rw [← hv, checked, Int.checked_toInt] at this
      contradiction
  case isFalse hc =>
    have hc : Int.checked 128 value = _ := Int.checked_of_mem (by simpa [checked] using hc)
    have hv : (BitVec.ofInt 128 value).toInt = value := Int.toInt_ofInt_of_checked (by decide) hc
    rw [checked, hc, Option.map_some, h, ← Timestamp.found_iff_regular (hv.symm ▸ hs) hsec]
    simp

-- A number of seconds on the timeline.
theorem adds_zero (t : Timestamp) (seconds : ℤ) : Adds t 0 seconds (do
    return { t with value := .ofInt 128 (← checked (t.value.toInt + seconds)) }) := by
  intro value hv
  rw [Timestamp.isSum_zero_iff.mp hv, Option.map_eq_bind]
  rfl

theorem checkedAddDuration_adds_iff (t : Timestamp) (d : Duration) :
    Adds t d.allMonths d.allSeconds (checkedAddDuration t d) ↔
      Addable t d.allMonths d.allSeconds := by
  have hl : -2 ^ 127 ≤ d.allSeconds := d.dayTime.le_toInt
  have hu : d.allSeconds < 2 ^ 127 := d.dayTime.toInt_lt
  unfold checkedAddDuration
  by_cases h₀ : d.allMonths = 0
  case pos =>
    simp only [Addable, h₀, ne_eq, not_true_eq_false, false_implies, iff_true, ↓reduceIte]
    exact adds_zero t d.allSeconds
  case neg =>
    rw [if_neg h₀]
    exact adds_iff ⟨hl, hu.le⟩ h₀ (plus_eq_some_iff_found t d)

theorem allMonths_of_checkedNeg {d d' : Duration} (h : d.checkedNeg = some d') :
    d'.allMonths = -d.allMonths ∧ d'.allSeconds = -d.allSeconds := by
  unfold Duration.checkedNeg checkedNeg checked at h
  simp only [Option.bind_eq_bind, Option.bind_eq_some_iff] at h
  obtain ⟨m, hm, s, hs, h⟩ := h
  cases h
  unfold Duration.allMonths Duration.allSeconds
  rw [Int.toInt_ofInt_of_checked (by decide) hm, Int.toInt_ofInt_of_checked (by decide) hs]
  exact ⟨(Int.checked_eq_some_iff.mp hm).1.symm, (Int.checked_eq_some_iff.mp hs).1.symm⟩

-- A duration that has no negative is not subtracted.
theorem not_found_of_checkedNeg {d : Duration} (h : d.checkedNeg = none) :
    ¬t.Found (-d.allMonths) (-d.allSeconds) := by
  intro hf
  have hl : -2 ^ 127 ≤ d.allSeconds := d.dayTime.le_toInt
  have hu : d.allSeconds < 2 ^ 127 := d.dayTime.toInt_lt
  have hm : d.allMonths < 2 ^ 63 := d.yearMonth.toInt_lt
  have h₀ := t.second_nonneg
  have hmonth : -2 ^ 63 ≤ t.month + -d.allMonths ∧ t.month + -d.allMonths < 2 ^ 63 := by
    simpa using hf.month_mem
  have hsec : -2 ^ 127 ≤ t.second + -d.allSeconds ∧ t.second + -d.allSeconds < 2 ^ 127 := by
    simpa [checked] using hf.second_mem
  have hcm : Int.checked 64 (-d.allMonths) = some (-d.allMonths) := checked_i64 (by omega)
  have hcs : Int.checked 128 (-d.allSeconds) = some (-d.allSeconds) :=
    Int.checked_of_mem (by omega)
  unfold Duration.checkedNeg checkedNeg checked at h
  rw [hcm, hcs] at h
  contradiction

theorem checkedSubDuration_adds_iff (t : Timestamp) (d : Duration) :
    Adds t (-d.allMonths) (-d.allSeconds) (checkedSubDuration t d) ↔
      Addable t (-d.allMonths) (-d.allSeconds) := by
  have hl : -2 ^ 127 ≤ d.allSeconds := d.dayTime.le_toInt
  have hu : d.allSeconds < 2 ^ 127 := d.dayTime.toInt_lt
  unfold checkedSubDuration
  by_cases h₀ : d.allMonths = 0
  case pos =>
    simp only [Addable, h₀, neg_zero, ne_eq, not_true_eq_false, false_implies, iff_true, ↓reduceIte]
    exact adds_zero t (-d.allSeconds)
  case neg =>
    rw [if_neg h₀]
    refine adds_iff (by omega) (neg_ne_zero.mpr h₀) fun t' => ?_
    cases hn : d.checkedNeg
    case none => exact iff_of_false nofun fun h => not_found_of_checkedNeg hn h.1
    case some d' =>
      have ⟨hm, hs⟩ := allMonths_of_checkedNeg hn
      rw [← hm, ← hs]
      exact plus_eq_some_iff_found t d' t'

-- A duration is added to and subtracted from a point in time in the right way iff its carries are.
theorem checkedAddDuration_iff (t : Timestamp) (d : Duration) :
    (Adds t d.allMonths d.allSeconds (checkedAddDuration t d) ∧
      Adds t (-d.allMonths) (-d.allSeconds) (checkedSubDuration t d)) ↔
      Addable t d.allMonths d.allSeconds ∧ Addable t (-d.allMonths) (-d.allSeconds) :=
  and_congr (checkedAddDuration_adds_iff t d) (checkedSubDuration_adds_iff t d)

-- One month before 2020-01-15 is 2019-12-15, but 2020-02-15 is returned. A month and 130 days
-- before the start of an early March is out of the range, but a day of the same year is returned.
theorem not_adds_january :
    (∃ t, new 2020 1 15 0 0 0 none = some t ∧
      checkedSubDuration t ⟨1, 0⟩ = new 2020 2 15 0 0 0 none ∧
      ¬Adds t (-1) 0 (checkedSubDuration t ⟨1, 0⟩)) ∧
    ∃ t, new (-5391559471917) 3 1 0 0 0 none = some t ∧
      ¬Adds t (-1) (-130 * 86400 * decimalPartPow)
        (checkedAddDuration t ⟨-1, .ofInt 128 (-130 * 86400 * decimalPartPow)⟩) := by
  refine ⟨⟨_, rfl, rfl, fun h => ?_⟩, _, rfl, fun h => ?_⟩
  case refine_1 =>
    have hs := h 63711964800000000000000000000 ⟨2020, 1, 15, 0, ?_, by decide⟩
    · exact absurd hs (by decide)
    · constructor
      · constructor <;> decide
      all_goals decide
  case refine_2 =>
    have hs := h (-170141183460470217600000000000000000000)
      ⟨-5391559471917, 3, 1, 0, ?_, by decide⟩
    · exact absurd hs (by decide)
    · constructor
      · constructor <;> decide
      all_goals decide

end Datatypes.DateTime
