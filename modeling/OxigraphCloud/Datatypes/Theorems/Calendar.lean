import OxigraphCloud.Datatypes.DateTime

-- The days of the timeline are the dates of the calendar.
namespace Datatypes

-- The days of `n` months from the given one on.
def monthsLength (y : ℤ) (month n : ℕ) : ℤ :=
  (List.range' month n).map (fun m => (daysInMonth (some y) m : ℤ)) |>.sum

def yearLength (y : ℤ) : ℤ := monthsLength y 1 12

structure IsDate (y : ℤ) (m d : ℕ) : Prop where
  one_le_month : 1 ≤ m
  month_le     : m ≤ 12
  one_le_day   : 1 ≤ d
  day_le       : d ≤ daysInMonth (some y) m

theorem daysInMonth_mem (y : Option ℤ) (m : ℕ) : 28 ≤ daysInMonth y m ∧ daysInMonth y m ≤ 31 := by
  unfold daysInMonth
  split
  case h_1 =>
    rcases y with _ | y
    · decide
    · simp only
      split <;> decide
  all_goals decide

theorem monthsLength_succ_left :
    monthsLength y month (n + 1) = daysInMonth (some y) month + monthsLength y (month + 1) n := by
  simp [monthsLength, List.range'_succ]

theorem monthsLength_succ :
    monthsLength y month (n + 1) = monthsLength y month n + daysInMonth (some y) (month + n) := by
  simp [monthsLength, List.range'_concat]

theorem yearLength_eq (y : ℤ) :
    yearLength y = if y % 4 ≠ 0 ∨ (y % 100 = 0 ∧ y % 400 ≠ 0) then 365 else 366 := by
  unfold yearLength monthsLength
  simp only [List.range', List.map_cons, List.map_nil, List.sum_cons, List.sum_nil, daysInMonth]
  split <;> rfl

theorem findMonth_spec (h₀ : 0 ≤ days) (h : days < monthsLength y month n) :
    ∃ i < n, findMonth y (List.range' month n) days = (month + i, days - monthsLength y month i) ∧
      monthsLength y month i ≤ days ∧ days < monthsLength y month (i + 1) := by
  induction n generalizing month days with
  | zero =>
    have : monthsLength y month 0 = 0 := rfl
    omega
  | succ n ih =>
    rw [monthsLength_succ_left] at h
    rw [List.range'_succ, findMonth]
    split
    case isTrue hd =>
      exact ⟨0, by omega, by simp [monthsLength], h₀, by simpa [monthsLength] using hd⟩
    case isFalse hd =>
      have h₁ : 0 ≤ days - daysInMonth (some y) month := by omega
      have h₂ : days - daysInMonth (some y) month < monthsLength y (month + 1) n := by omega
      have ⟨i, hi, hf, h₃, h₄⟩ := ih h₁ h₂
      refine ⟨i + 1, by omega, ?_, ?_, ?_⟩
      · rw [hf, monthsLength_succ_left]
        congr 1 <;> omega
      · rw [monthsLength_succ_left]; omega
      · rw [monthsLength_succ_left]; omega

theorem tdiv_cases (hx : -1 ≤ x) (hk : 1 < k) :
    (x = -1 ∧ x.tdiv k = 0) ∨ (0 ≤ x ∧ x.tdiv k = x / k) := by
  rcases (by omega : x = -1 ∨ 0 ≤ x) with rfl | hx
  · exact .inl ⟨rfl, by rw [Int.neg_tdiv, Int.tdiv_eq_zero_of_lt (by decide) hk, neg_zero]⟩
  · exact .inr ⟨hx, Int.tdiv_eq_ediv_of_nonneg hx⟩

-- The number of days before a year that is given by its position in a cycle of 400 years.
theorem daysBefore_eq (a : ℤ) (hb : 0 ≤ b ∧ b ≤ 3) (hc : 0 ≤ c ∧ c ≤ 24) (he : 0 ≤ e ∧ e ≤ 3) :
    let yr := 400 * a + 100 * b + 4 * c + e - 1
    365 * yr + (yr / 400 - yr / 100 + yr / 4) =
      146097 * a + 36524 * b + 1461 * c + 365 * e - 366 +
        if (b = 0 ∨ c ≠ 0) ∧ e = 0 then 0 else 1 := by
  intro yr
  rcases (by omega : e = 0 ∨ 0 < e) with rfl | he₀
    <;> rcases (by omega : c = 0 ∨ 0 < c) with rfl | hc₀
    <;> rcases (by omega : b = 0 ∨ 0 < b) with rfl | hb₀
    <;> split
    <;> omega

theorem isLeapYear_iff (a : ℤ) (hb : 0 ≤ b ∧ b ≤ 3) (hc : 0 ≤ c ∧ c ≤ 24) (he : 0 ≤ e ∧ e ≤ 3) :
    let y := 400 * a + 100 * b + 4 * c + e
    (b = 0 ∨ c ≠ 0) ∧ e = 0 ↔ ¬(y % 4 ≠ 0 ∨ (y % 100 = 0 ∧ y % 400 ≠ 0)) := by
  intro y
  have h₁ : y % 4 = e := by omega
  have h₂ : y % 100 = 4 * c + e := by omega
  have h₃ : y % 400 = 100 * b + 4 * c + e := by omega
  rw [h₁, h₂, h₃]
  omega

theorem shift_nonneg {days : ℤ} (hd : days < 0) : 0 ≤ days - (days.tdiv 146097 - 1) * 146097 := by
  have h : days.tdiv 146097 = -(-days / 146097) := by
    rw [← Int.tdiv_eq_ediv_of_nonneg (by omega), Int.neg_tdiv, neg_neg]
  omega

theorem splitYear_spec (days : ℤ) :
    let (year, day) := splitYear days
    365 * (year - 1) + ((year - 1) / 400 - (year - 1) / 100 + (year - 1) / 4) + day = days ∧
      0 ≤ day ∧ day < yearLength year := by
  simp only [splitYear]
  generalize hs : (if days + 366 < 0 then (days + 366).tdiv 146097 - 1 else 0) = shift
  have h₁ : 0 ≤ days + 366 - shift * 146097 := by
    split at hs <;> subst hs
    case isTrue h => exact shift_nonneg h
    case isFalse => omega
  clear hs
  -- The divisions leave the position of the year in its cycle.
  generalize hn : days + 366 - shift * 146097 = n at h₁
  rw [Int.tdiv_eq_ediv_of_nonneg h₁]
  have ha : 0 ≤ n - n / 146097 * 146097 ∧ n - n / 146097 * 146097 < 146097 := by omega
  generalize n / 146097 = a at ha
  have hb := tdiv_cases (x := n - a * 146097 - 1) (k := 36524) (by omega) (by decide)
  generalize (n - a * 146097 - 1).tdiv 36524 = b at hb
  have hb' : 0 ≤ b ∧ b ≤ 3 := by omega
  have hc' : 0 ≤ n - a * 146097 - 1 - b * 36524 + 1 := by omega
  rw [Int.tdiv_eq_ediv_of_nonneg hc']
  generalize hc : (n - a * 146097 - 1 - b * 36524 + 1) / 1461 = c
  have hc'' : 0 ≤ c ∧ c ≤ 24 := by omega
  have he := tdiv_cases (x := n - a * 146097 - 1 - b * 36524 + 1 - c * 1461 - 1) (k := 365)
    (by omega) (by decide)
  generalize (n - a * 146097 - 1 - b * 36524 + 1 - c * 1461 - 1).tdiv 365 = e at he
  have he' : 0 ≤ e ∧ e ≤ 3 := by omega
  have hy : 400 * a + 100 * b + 4 * c + e + shift * 400 =
    400 * (a + shift) + 100 * b + 4 * c + e := by ring
  have hleap := isLeapYear_iff (a + shift) hb' hc'' he'
  rw [hy, daysBefore_eq (a + shift) hb' hc'' he', yearLength_eq]
  by_cases hl : (b = 0 ∨ c ≠ 0) ∧ e = 0
  case pos =>
    rw [if_pos hl, if_pos hl, if_neg (hleap.mp hl)]
    omega
  case neg =>
    rw [if_neg hl, if_neg hl, if_pos (not_not.mp (hleap.not.mp hl))]
    omega

theorem daysOnTimeline_eq : daysOnTimeline yr (month + 1) da =
    365 * yr + (yr / 400 - yr / 100 + yr / 4) + monthsLength (yr + 1) 1 month + da := rfl

theorem yearMonthDay_spec (days : ℤ) :
    let (y, m, d) := yearMonthDay days
    IsDate y m d ∧ daysOnTimeline (y - 1) m (d - 1) = days := by
  have h := splitYear_spec days
  unfold yearMonthDay
  generalize splitYear days = s at h
  obtain ⟨year, day⟩ := s
  obtain ⟨hd, h₀, hl⟩ := h
  have ⟨i, hi, hf, h₁, h₂⟩ := findMonth_spec h₀ hl
  rw [monthsLength_succ] at h₂
  simp only [hf]
  refine ⟨⟨by omega, by omega, by omega, by omega⟩, ?_⟩
  rw [Nat.add_comm 1 i, daysOnTimeline_eq, sub_add_cancel]
  omega

theorem monthsLength_le (h : n ≤ k) : monthsLength y month n ≤ monthsLength y month k := by
  induction h with
  | refl => rfl
  | step _ ih => rw [monthsLength_succ]; omega

-- The first day of a year.
def yearStart (y : ℤ) : ℤ := daysOnTimeline (y - 1) 1 0

theorem yearStart_add_yearLength_le (h : y₁ < y₂) :
    yearStart y₁ + yearLength y₁ ≤ yearStart y₂ := by
  rw [yearLength_eq, yearStart, yearStart, daysOnTimeline_eq, daysOnTimeline_eq]
  simp only [monthsLength, List.range'_zero, List.map_nil, List.sum_nil]
  split <;> omega

namespace IsDate

-- The days in the year that lie before a date.
def dayOfYear (y : ℤ) (m d : ℕ) : ℤ := monthsLength y 1 (m - 1) + (d - 1 : ℕ)

theorem daysOnTimeline_eq_add (h : IsDate y m d) :
    daysOnTimeline (y - 1) m (d - 1) = yearStart y + dayOfYear y m d := by
  have hm : m = m - 1 + 1 := by have := h.one_le_month; omega
  rw [hm, daysOnTimeline_eq, yearStart, daysOnTimeline_eq, dayOfYear]
  simp [monthsLength]
  ring

theorem dayOfYear_lt (h : IsDate y m d) : dayOfYear y m d < monthsLength y 1 m := by
  have hm : m = m - 1 + 1 := by have := h.one_le_month; omega
  have h₁ := h.one_le_day
  have h₂ := h.day_le
  rw [dayOfYear, hm, monthsLength_succ, Nat.add_sub_cancel, ← hm.trans (Nat.add_comm _ _)]
  omega

theorem dayOfYear_mem (h : IsDate y m d) :
    0 ≤ dayOfYear y m d ∧ dayOfYear y m d < yearLength y := by
  have h₀ : monthsLength y 1 0 ≤ monthsLength y 1 (m - 1) := monthsLength_le (Nat.zero_le _)
  constructor
  · exact add_nonneg h₀ (Int.natCast_nonneg _)
  · exact lt_of_lt_of_le h.dayOfYear_lt (monthsLength_le h.month_le)

-- The years of a number of days.
theorem year_mem (h : IsDate y m d)
    (hd : -10 ^ 16 < daysOnTimeline (y - 1) m (d - 1) ∧
      daysOnTimeline (y - 1) m (d - 1) < 10 ^ 16) :
    -10 ^ 14 < y ∧ y < 10 ^ 14 := by
  have hy := h.dayOfYear_mem
  rw [h.daysOnTimeline_eq_add, yearStart, daysOnTimeline_eq] at hd
  rw [yearLength_eq] at hy
  simp only [monthsLength, List.range'_zero, List.map_nil, List.sum_nil] at hd
  split at hy <;> omega

theorem le_month (h : IsDate y m d) (hd : dayOfYear y m' d' ≤ dayOfYear y m d) : m' ≤ m := by
  by_contra hm
  have hl : monthsLength y 1 m ≤ monthsLength y 1 (m' - 1) := monthsLength_le (by omega)
  have := h.dayOfYear_lt
  unfold dayOfYear at *
  omega

end IsDate

theorem daysOnTimeline_injective (h₁ : IsDate y₁ m₁ d₁) (h₂ : IsDate y₂ m₂ d₂)
    (h : daysOnTimeline (y₁ - 1) m₁ (d₁ - 1) = daysOnTimeline (y₂ - 1) m₂ (d₂ - 1)) :
    (y₁, m₁, d₁) = (y₂, m₂, d₂) := by
  rw [h₁.daysOnTimeline_eq_add, h₂.daysOnTimeline_eq_add] at h
  have hd₁ := h₁.dayOfYear_mem
  have hd₂ := h₂.dayOfYear_mem
  rcases lt_trichotomy y₁ y₂ with hy | rfl | hy
  case inl =>
    have := yearStart_add_yearLength_le hy
    omega
  case inr.inr =>
    have := yearStart_add_yearLength_le hy
    omega
  case inr.inl =>
    have h := add_left_cancel h
    have hm : m₁ = m₂ := le_antisymm (h₂.le_month h.le) (h₁.le_month h.ge)
    subst hm
    have := h₁.one_le_day
    have := h₂.one_le_day
    unfold IsDate.dayOfYear at h
    have hd : d₁ = d₂ := by omega
    rw [hd]

theorem yearMonthDay_daysOnTimeline (h : IsDate y m d) :
    yearMonthDay (daysOnTimeline (y - 1) m (d - 1)) = (y, m, d) := by
  have hs := yearMonthDay_spec (daysOnTimeline (y - 1) m (d - 1))
  generalize yearMonthDay _ = date at hs
  exact daysOnTimeline_injective hs.1 h hs.2

end Datatypes
