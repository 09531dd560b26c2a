import OxigraphCloud.Datatypes.Duration
import OxigraphCloud.Datatypes.Theorems.Timestamp

-- Adding a duration follows the calendar as long as no carry gets negative.
namespace Datatypes

variable {yr da : ℤ} {mo fuel : ℕ}

theorem checked_i64 {x : ℤ} (h : -2 ^ 63 ≤ x ∧ x < 2 ^ 63) : Int.checked 64 x = some x :=
  Int.checked_of_mem h

theorem toU8_of_mem {n : ℤ} (h : 0 ≤ n ∧ n < 256) : toU8 n = some n.toNat := if_pos h

section Month

-- The month before January is taken to be February of the same year.
theorem normalizeMonth_zero (hy : -2 ^ 62 ≤ yr ∧ yr < 2 ^ 62) :
    normalizeMonth yr 0 = some (yr, 2) := by
  have hc : Int.checked 64 (yr + (-1 : ℤ).tdiv 12) = some yr := by
    rw [show (-1 : ℤ).tdiv 12 = 0 from rfl, add_zero]
    exact checked_i64 (by omega)
  unfold normalizeMonth
  rw [show Int.checked 64 (0 - 1) = some (-1) from rfl]
  simp only [Option.bind_eq_bind, Option.bind_some, le_refl, ↓reduceIte, hc]
  rfl

theorem normalizeMonth_of_pos {mo : ℤ} (hm : 0 < mo ∧ mo < 2 ^ 63)
    (hy : -2 ^ 62 ≤ yr ∧ yr < 2 ^ 62) :
    normalizeMonth yr mo = some (yr + (mo - 1) / 12, ((mo - 1) % 12 + 1).toNat) := by
  have hb : Int.checked 64 (mo - 1) = some (mo - 1) := checked_i64 (by omega)
  have hq : (mo - 1).tdiv 12 = (mo - 1) / 12 := Int.tdiv_eq_ediv_of_nonneg (by omega)
  have hr : |(mo - 1).tmod 12| = (mo - 1) % 12 := by
    rw [Int.tmod_eq_emod_of_nonneg (by omega), abs_of_nonneg (by omega)]
  have hcy : Int.checked 64 (yr + (mo - 1) / 12) = some (yr + (mo - 1) / 12) :=
    checked_i64 (by omega)
  have hcm : Int.checked 64 ((mo - 1) % 12 + 1) = some ((mo - 1) % 12 + 1) := checked_i64 (by omega)
  have hu : toU8 ((mo - 1) % 12 + 1) = some ((mo - 1) % 12 + 1).toNat := toU8_of_mem (by omega)
  unfold normalizeMonth
  simp only [Option.bind_eq_bind, Option.bind_some, hb, if_pos hm.1.le, hq, hr, hcy, hcm, hu]
  rfl

theorem normalizeMonth_of_neg {mo : ℤ} (hm : -2 ^ 63 < mo ∧ mo < 0)
    (hy : -2 ^ 62 ≤ yr ∧ yr < 2 ^ 62) :
    normalizeMonth yr mo = some (yr - (1 - mo) / 12 - 1, (13 - (1 - mo) % 12).toNat) := by
  have hb : Int.checked 64 (mo - 1) = some (mo - 1) := checked_i64 (by omega)
  have hn : -(mo - 1) = 1 - mo := by ring
  have hq : (mo - 1).tdiv 12 = -((1 - mo) / 12) := by rw [Int.tdiv_of_nonpos (by omega), hn]
  have hr : (mo - 1).tmod 12 = -((1 - mo) % 12) := by rw [Int.tmod_of_nonpos (by omega), hn]
  have hcq : Int.checked 64 (-((1 - mo) / 12) - 1) = some (-((1 - mo) / 12) - 1) :=
    checked_i64 (by omega)
  have hcy : Int.checked 64 (yr + (-((1 - mo) / 12) - 1)) = some (yr - (1 - mo) / 12 - 1) :=
    (checked_i64 (by omega)).trans (by congr 1; ring)
  have hcr : Int.checked 64 (12 + -((1 - mo) % 12)) = some (12 + -((1 - mo) % 12)) :=
    checked_i64 (by omega)
  have hcm : Int.checked 64 (12 + -((1 - mo) % 12) + 1) = some (13 - (1 - mo) % 12) :=
    (checked_i64 (by omega)).trans (by congr 1; ring)
  have hu : toU8 (13 - (1 - mo) % 12) = some (13 - (1 - mo) % 12).toNat := toU8_of_mem (by omega)
  unfold normalizeMonth
  simp only [Option.bind_eq_bind, Option.bind_some, hb, if_neg (not_le.mpr hm.2), hq, hr, hcq, hcy,
    hcr, hcm, hu]
  rfl

-- Months are counted on in the right way but for month zero. January of a year can come out as
-- month 13 of the year before.
theorem normalizeMonth_of_ne_zero {mo : ℤ} (h₀ : mo ≠ 0) (hm : -2 ^ 63 < mo ∧ mo < 2 ^ 63)
    (hy : -2 ^ 62 ≤ yr ∧ yr < 2 ^ 62) :
    ∃ (y : ℤ) (m : ℕ), normalizeMonth yr mo = some (y, m) ∧ 12 * y + m = 12 * yr + mo ∧
      1 ≤ m ∧ m ≤ 13 ∧ (0 < mo → m ≤ 12) := by
  rcases lt_or_gt_of_ne h₀ with h | h
  · exact ⟨_, _, normalizeMonth_of_neg ⟨hm.1, h⟩ hy, by omega, by omega, by omega, by omega⟩
  · exact ⟨_, _, normalizeMonth_of_pos ⟨h, hm.2⟩ hy, by omega, by omega, by omega, by omega⟩

theorem normalizeMonth_of_mem (hm : 1 ≤ mo ∧ mo ≤ 12) (hy : -2 ^ 62 ≤ yr ∧ yr < 2 ^ 62) :
    normalizeMonth yr mo = some (yr, mo) := by
  rw [normalizeMonth_of_pos (by omega) hy]
  congr 2 <;> omega

end Month

section Day

-- The first day of a month.
def monthStart (y : ℤ) (m : ℕ) : ℤ := daysOnTimeline (y - 1) m 0

theorem daysOnTimeline_eq_monthStart (y : ℤ) (m d : ℕ) :
    daysOnTimeline (y - 1) m d = monthStart y m + d := by
  simp [monthStart, daysOnTimeline]

theorem monthStart_eq (hm : 1 ≤ m) : monthStart y m = yearStart y + monthsLength y 1 (m - 1) := by
  obtain ⟨k, rfl⟩ : ∃ k, m = k + 1 := ⟨m - 1, by omega⟩
  rw [monthStart, yearStart, daysOnTimeline_eq, daysOnTimeline_eq]
  simp [monthsLength]

theorem monthStart_succ (hm : 1 ≤ m) :
    monthStart y (m + 1) = monthStart y m + daysInMonth (some y) m := by
  have h : monthsLength y 1 (m - 1 + 1) = monthsLength y 1 (m - 1) + _ := monthsLength_succ
  rw [monthStart_eq hm, monthStart_eq (by omega), Nat.add_sub_cancel]
  rw [Nat.sub_add_cancel hm, Nat.add_sub_cancel' hm] at h
  omega

theorem yearStart_succ (y : ℤ) : yearStart (y + 1) = yearStart y + yearLength y := by
  rw [yearLength_eq, yearStart, yearStart, daysOnTimeline_eq, daysOnTimeline_eq]
  simp only [monthsLength, List.range'_zero, List.map_nil, List.sum_nil]
  split <;> omega

-- The thirteenth month is January of the next year.
theorem monthStart_thirteen (y : ℤ) : monthStart y 13 = monthStart (y + 1) 1 := by
  rw [monthStart_eq (by decide), monthStart_eq (by decide), yearStart_succ]
  simp [yearLength, monthsLength]

theorem isDate_of_mem (hm : 1 ≤ mo ∧ mo ≤ 12) (hd : 1 ≤ da ∧ da ≤ daysInMonth (some yr) mo) :
    IsDate yr mo da.toNat :=
  ⟨hm.1, hm.2, by omega, by omega⟩

-- A day of the month is returned as it is.
theorem normalizeDayLoop_of_mem (hd : 1 ≤ da ∧ da ≤ daysInMonth (some yr) mo) :
    normalizeDayLoop yr mo da (fuel + 1) = some (yr, mo, da.toNat) := by
  have hl := (daysInMonth_mem (some yr) mo).2
  have hu : toU8 da = some da.toNat := toU8_of_mem (by omega)
  unfold normalizeDayLoop
  rw [if_neg (by omega), if_neg (by omega), hu]
  rfl

theorem normalizeDayLoop_of_lt (hm : 1 ≤ mo ∧ mo ≤ 12) (hd : daysInMonth (some yr) mo < da)
    (hb : da < 2 ^ 62) (hy : -2 ^ 62 ≤ yr ∧ yr < 2 ^ 62) (fuel : ℕ) :
    ∃ (y : ℤ) (m : ℕ), 12 * y + m = 12 * yr + mo + 1 ∧ 1 ≤ m ∧ m ≤ 12 ∧
      monthStart y m = monthStart yr mo + daysInMonth (some yr) mo ∧
      normalizeDayLoop yr mo da (fuel + 1) =
        normalizeDayLoop y m (da - daysInMonth (some yr) mo) fuel := by
  have hc : Int.checked 64 (da - daysInMonth (some yr) mo) = some (da - daysInMonth (some yr) mo) :=
    checked_i64 (by omega)
  obtain ⟨y, m, hn, hi, hm₁, -, hm₂⟩ :=
    normalizeMonth_of_ne_zero (by omega : (mo + 1 : ℤ) ≠ 0) (by omega) hy
  have hm₂ := hm₂ (by omega)
  refine ⟨y, m, by omega, hm₁, hm₂, ?_, ?_⟩
  case refine_1 =>
    rw [← monthStart_succ hm.1]
    have hc : y = yr ∧ m = mo + 1 ∨ y = yr + 1 ∧ m = 1 ∧ mo = 12 := by omega
    rcases hc with ⟨rfl, rfl⟩ | ⟨rfl, rfl, rfl⟩
    · rfl
    · exact (monthStart_thirteen yr).symm
  case refine_2 =>
    rw [normalizeDayLoop, if_neg (by omega), if_pos hd, hc]
    simp only [Option.bind_eq_bind, Option.bind_some, hn]

-- From a positive day on the loop counts upwards.
theorem normalizeDayLoop_up (hm : 1 ≤ mo ∧ mo ≤ 12) (hd : 1 ≤ da) (hf : da < fuel)
    (hy : -2 ^ 62 ≤ yr ∧ yr + da < 2 ^ 62) (hb : da < 2 ^ 62) :
    ∃ y m d, normalizeDayLoop yr mo da fuel = some (y, m, d) ∧ IsDate y m d ∧
      daysOnTimeline (y - 1) m (d - 1) = monthStart yr mo + da - 1 := by
  induction fuel generalizing yr mo da with
  | zero => omega
  | succ fuel ih =>
    rcases le_or_gt da (daysInMonth (some yr) mo) with hl | hl
    case inl =>
      refine ⟨_, _, _, normalizeDayLoop_of_mem ⟨hd, hl⟩, isDate_of_mem hm ⟨hd, hl⟩, ?_⟩
      rw [daysOnTimeline_eq_monthStart]
      omega
    case inr =>
      have hdi := daysInMonth_mem (some yr) mo
      have ⟨y, m, hi, hm₁, hm₂, hs, hr⟩ := normalizeDayLoop_of_lt hm hl hb (by omega) fuel
      have hy' : -2 ^ 62 ≤ y ∧ y + (da - daysInMonth (some yr) mo) < 2 ^ 62 := by omega
      have ⟨y', m', d', h, hdate, hday⟩ := ih ⟨hm₁, hm₂⟩ (by omega) (by omega) hy' (by omega)
      exact ⟨y', m', d', hr.trans h, hdate, by omega⟩

-- The month before, in which January is followed by February.
theorem normalizeDayLoop_of_nonpos (hm : 1 ≤ mo ∧ mo ≤ 12) (hd : da ≤ 0) (hb : -2 ^ 62 ≤ da)
    (hy : -2 ^ 62 ≤ yr ∧ yr < 2 ^ 62) (fuel : ℕ) :
    let previous := if mo = 1 then 2 else mo - 1
    normalizeDayLoop yr mo da (fuel + 1) =
      normalizeDayLoop yr previous (da + daysInMonth (some yr) previous) fuel := by
  intro previous
  have hdi := daysInMonth_mem (some yr) previous
  have hn : normalizeMonth yr (mo - 1) = some (yr, previous) := by
    by_cases h : mo = 1
    case pos => simp only [previous, h, ↓reduceIte, Nat.cast_one, sub_self, normalizeMonth_zero hy]
    case neg =>
      have := normalizeMonth_of_mem (by omega : 1 ≤ mo - 1 ∧ mo - 1 ≤ 12) hy
      rw [Nat.cast_sub hm.1, Nat.cast_one] at this
      simp only [previous, h, ↓reduceIte, this]
  have hc : Int.checked 64 (da + daysInMonth (some yr) previous) =
    some (da + daysInMonth (some yr) previous) := checked_i64 (by omega)
  rw [normalizeDayLoop, if_pos hd, hn]
  simp only [Option.bind_eq_bind, Option.bind_some, hc]

-- The day at which the loop ends. It does not get to the year before but goes around in January and
-- February.
def wrapDay (y : ℤ) (day : ℤ) : ℤ :=
  if yearStart y ≤ day then day else yearStart y + (day - yearStart y) % monthsLength y 1 2

-- January and February.
theorem monthsLength_two (y : ℤ) : monthsLength y 1 2 = 31 + daysInMonth (some y) 2 := by
  rw [monthsLength_succ, monthsLength_succ]
  simp [monthsLength, daysInMonth]

theorem yearStart_le_wrapDay (y day : ℤ) : yearStart y ≤ wrapDay y day := by
  have := monthsLength_two y
  unfold wrapDay
  split
  case isTrue h => exact h
  case isFalse => exact le_add_of_nonneg_right (Int.emod_nonneg _ (by omega))

theorem le_wrapDay (y day : ℤ) : day ≤ wrapDay y day := by
  rcases le_or_gt (yearStart y) day with h | h
  · rw [wrapDay, if_pos h]
  · exact h.le.trans (yearStart_le_wrapDay y day)

theorem wrapDay_add (h : day < yearStart y) :
    wrapDay y (day + monthsLength y 1 2) = wrapDay y day := by
  have := monthsLength_two y
  have ha : day + monthsLength y 1 2 - yearStart y = day - yearStart y + monthsLength y 1 2 := by
    ring
  rw [wrapDay, wrapDay, if_neg (not_le.mpr h), ha, Int.add_emod_right]
  split
  case isTrue h₁ =>
    rw [← Int.add_emod_right, Int.emod_eq_of_lt (by omega) (by omega)]
    ring
  case isFalse => rfl

-- From January the loop goes to February, as if it came before.
theorem wrapDay_previous (hm : 1 ≤ mo ∧ mo ≤ 12) (hd : da ≤ 0) :
    let previous := if mo = 1 then 2 else mo - 1
    wrapDay yr (monthStart yr previous + (da + daysInMonth (some yr) previous) - 1) =
      wrapDay yr (monthStart yr mo + da - 1) := by
  intro previous
  by_cases h : mo = 1
  case pos =>
    have hp : previous = 2 := if_pos h
    have hl := monthsLength_two yr
    have hs : monthStart yr 2 = _ := monthStart_succ (by decide : 1 ≤ 1)
    have hj : daysInMonth (some yr) 1 = 31 := rfl
    have hy : monthStart yr 1 = yearStart yr := rfl
    have hw : wrapDay yr (monthStart yr 1 + da - 1 + monthsLength yr 1 2) = _ :=
      wrapDay_add (by omega)
    rw [hp, h, ← hw]
    congr 1
    omega
  case neg =>
    have hp : previous = mo - 1 := if_neg h
    have hs : monthStart yr (mo - 1 + 1) = _ := monthStart_succ (by omega)
    rw [Nat.sub_add_cancel hm.1] at hs
    rw [hp]
    congr 1
    omega

-- From a day before the month on the loop counts downwards.
theorem normalizeDayLoop_down (hm : 1 ≤ mo ∧ mo ≤ 12) (hd : da ≤ 0) (hf : -da + 1 < fuel)
    (hy : -2 ^ 62 ≤ yr ∧ yr < 2 ^ 62) (hb : -2 ^ 62 ≤ da) :
    ∃ m d, normalizeDayLoop yr mo da fuel = some (yr, m, d) ∧ IsDate yr m d ∧
      daysOnTimeline (yr - 1) m (d - 1) = wrapDay yr (monthStart yr mo + da - 1) := by
  induction fuel generalizing mo da with
  | zero => omega
  | succ fuel ih =>
    have hstep := normalizeDayLoop_of_nonpos hm hd hb hy fuel
    have hwrap : wrapDay yr _ = wrapDay yr _ := wrapDay_previous hm hd
    set previous := if mo = 1 then 2 else mo - 1 with hp
    have hpm : 1 ≤ previous ∧ previous ≤ 12 := by split at hp <;> omega
    have hdi := daysInMonth_mem (some yr) previous
    rw [← hwrap]
    rcases le_or_gt (da + daysInMonth (some yr) previous) 0 with h | h
    case inl =>
      have ⟨m, d, hr, hdate⟩ := ih hpm h (by omega) (by omega)
      exact ⟨m, d, hstep.trans hr, hdate⟩
    case inr =>
      obtain ⟨fuel, rfl⟩ : ∃ n, fuel = n + 1 := ⟨fuel - 1, by omega⟩
      have hmem : 1 ≤ da + daysInMonth (some yr) previous ∧
          da + daysInMonth (some yr) previous ≤ daysInMonth (some yr) previous := by omega
      have h₀ : 0 ≤ monthsLength yr 1 (previous - 1) := monthsLength_le (Nat.zero_le _)
      have hs := monthStart_eq (y := yr) hpm.1
      refine ⟨_, _, hstep.trans (normalizeDayLoop_of_mem hmem), isDate_of_mem hpm hmem, ?_⟩
      rw [wrapDay, if_pos (by omega), daysOnTimeline_eq_monthStart]
      omega

theorem normalizeDayLoop_spec (hm : 1 ≤ mo ∧ mo ≤ 12) (hy : -2 ^ 61 ≤ yr ∧ yr < 2 ^ 61)
    (hb : -2 ^ 61 ≤ da ∧ da < 2 ^ 61) :
    ∃ y m d, normalizeDayLoop yr mo da (da.natAbs + 2) = some (y, m, d) ∧ IsDate y m d ∧
      daysOnTimeline (y - 1) m (d - 1) = wrapDay yr (monthStart yr mo + da - 1) := by
  rcases le_or_gt da 0 with hd | hd
  case inl => exact ⟨yr, normalizeDayLoop_down hm hd (by omega) (by omega) (by omega)⟩
  case inr =>
    have hs := monthStart_eq (y := yr) hm.1
    have h₀ : 0 ≤ monthsLength yr 1 (mo - 1) := monthsLength_le (Nat.zero_le _)
    rw [wrapDay, if_pos (by omega)]
    exact normalizeDayLoop_up hm hd (by omega) (by omega) (by omega)

end Day

section Carry

open Decimal

variable {hr mi se : ℤ}

-- The minutes, hours and days with what is carried over from the seconds.
def carriedMinute (mi se : ℤ) : ℤ := mi + se.tdiv (60 * decimalPartPow)

def carriedHour (hr mi se : ℤ) : ℤ := hr + (carriedMinute mi se).tdiv 60

def carriedDay (hr mi se : ℤ) : ℤ := (carriedHour hr mi se).tdiv 24

-- What remains is no negative minute or hour.
def CarriesNonneg (hr mi se : ℤ) : Prop :=
  0 ≤ (carriedMinute mi se).tmod 60 ∧ 0 ≤ (carriedHour hr mi se).tmod 24

instance : Decidable (CarriesNonneg hr mi se) := inferInstanceAs (Decidable (_ ∧ _))

theorem tdiv_minute_mem (hs : -2 ^ 127 ≤ se ∧ se < 2 ^ 127) :
    -3 * 10 ^ 18 < se.tdiv (60 * decimalPartPow) ∧ se.tdiv (60 * decimalPartPow) < 3 * 10 ^ 18 := by
  unfold decimalPartPow
  rcases le_total 0 se with h | h
  · rw [Int.tdiv_eq_ediv_of_nonneg h]
    omega
  · rw [Int.tdiv_of_nonpos h]
    omega

theorem carriedHour_mem (hh : 0 ≤ hr ∧ hr < 24)
    (hm : -2 ^ 62 < carriedMinute mi se ∧ carriedMinute mi se < 2 ^ 62) :
    -2 ^ 57 < carriedHour hr mi se ∧ carriedHour hr mi se < 2 ^ 57 := by
  unfold carriedHour
  rcases le_total 0 (carriedMinute mi se) with h | h
  · rw [Int.tdiv_eq_ediv_of_nonneg h]
    omega
  · rw [Int.tdiv_of_nonpos h]
    omega

theorem carriedDay_mem (hh : 0 ≤ hr ∧ hr < 24)
    (hm : -2 ^ 62 < carriedMinute mi se ∧ carriedMinute mi se < 2 ^ 62) :
    -2 ^ 53 < carriedDay hr mi se ∧ carriedDay hr mi se < 2 ^ 53 := by
  have := carriedHour_mem hh hm
  unfold carriedDay
  rcases le_total 0 (carriedHour hr mi se) with h | h
  · rw [Int.tdiv_eq_ediv_of_nonneg h]
    omega
  · rw [Int.tdiv_of_nonpos h]
    omega

theorem toU8_eq_none {n : ℤ} (h : n < 0) : toU8 n = none := if_neg (by omega)

theorem normalizeSecond_eq (hh : 0 ≤ hr ∧ hr < 24) (hm : 0 ≤ mi ∧ mi < 60)
    (hs : -2 ^ 127 ≤ se ∧ se < 2 ^ 127) (hd : 0 ≤ da ∧ da ≤ 31) (yr mo : ℤ) :
    normalizeSecond yr mo da hr mi se =
      if CarriesNonneg hr mi se then
        (normalizeDay yr mo (da + carriedDay hr mi se)).map fun (y, m, d) =>
          (y, m, d, ((carriedHour hr mi se).tmod 24).toNat, ((carriedMinute mi se).tmod 60).toNat,
            se.tmod (60 * decimalPartPow))
      else
        none := by
  have hq := tdiv_minute_mem hs
  have hmin : -2 ^ 62 < carriedMinute mi se ∧ carriedMinute mi se < 2 ^ 62 := by
    unfold carriedMinute
    omega
  have hhour := carriedHour_mem hh hmin
  have hday := carriedDay_mem hh hmin
  have hc₁ : Int.checked 64 ((asI128 se).tdiv 60) = some (se.tdiv (60 * decimalPartPow)) := by
    rw [asI128, Int.tdiv_tdiv, Int.mul_comm]
    exact checked_i64 (by omega)
  have hc₂ : Int.checked 64 (mi + se.tdiv (60 * decimalPartPow)) = some (carriedMinute mi se) :=
    checked_i64 (by unfold carriedMinute at hmin; omega)
  have hc₃ : Int.checked 64 (hr + (carriedMinute mi se).tdiv 60) = some (carriedHour hr mi se) :=
    checked_i64 (by unfold carriedHour at hhour; omega)
  have hc₄ : Int.checked 64 (da + (carriedHour hr mi se).tdiv 24) =
    some (da + carriedDay hr mi se) := checked_i64 (by unfold carriedDay at hday; omega)
  unfold normalizeSecond normalizeMinute
  simp only [Option.bind_eq_bind, Option.bind_some, hc₁, hc₂, hc₃, hc₄]
  have hlh := Int.tmod_lt_of_pos (carriedHour hr mi se) (by decide : (0 : ℤ) < 24)
  have hlm := Int.tmod_lt_of_pos (carriedMinute mi se) (by decide : (0 : ℤ) < 60)
  split
  case isTrue h =>
    rw [toU8_of_mem ⟨h.1, by omega⟩, toU8_of_mem ⟨h.2, by omega⟩]
    cases normalizeDay yr mo (da + carriedDay hr mi se) <;> rfl
  case isFalse h =>
    rcases not_and_or.mp h with h | h
      <;> rw [toU8_eq_none (not_le.mp h)]
      <;> cases normalizeDay yr mo (da + carriedDay hr mi se)
      <;> cases toU8 ((carriedHour hr mi se).tmod 24)
      <;> rfl

-- The time of a day and what is carried over to the next days.
theorem carried_eq (hr mi se : ℤ) :
    60 * decimalPartPow * (60 * (24 * carriedDay hr mi se + (carriedHour hr mi se).tmod 24) +
      (carriedMinute mi se).tmod 60) + se.tmod (60 * decimalPartPow) =
      60 * decimalPartPow * (60 * hr + mi) + se := by
  have h₁ := Int.mul_tdiv_add_tmod se (60 * decimalPartPow)
  have h₂ := Int.mul_tdiv_add_tmod (carriedMinute mi se) 60
  have h₃ := Int.mul_tdiv_add_tmod (carriedHour hr mi se) 24
  rw [carriedDay, h₃]
  have h₄ : 60 * carriedHour hr mi se + (carriedMinute mi se).tmod 60 =
      60 * hr + carriedMinute mi se := by
    rw [carriedHour]
    omega
  rw [h₄, carriedMinute]
  linear_combination h₁

end Carry

end Datatypes
