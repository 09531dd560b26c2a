import OxigraphCloud.Datatypes.Theorems.Addition
import OxigraphCloud.Primitives.Comparison
import OxigraphCloud.Sparql.Ordering

-- The order of durations as it follows from calendar arithmetic.
namespace Duration

open Datatypes Decimal DateTime

variable {a b c d : Duration} {year : ℤ} {month : ℕ}

-- A magnitude of less than a million years.
structure Small (d : Duration) : Prop where
  months_mem  : -12000000 < d.allMonths ∧ d.allMonths < 12000000
  seconds_mem : -366000000 * 86400 * decimalPartPow < d.allSeconds ∧
    d.allSeconds < 366000000 * 86400 * decimalPartPow

-- The duration can be added to the start of a day.
def Total (d : Duration) : Prop :=
  d.allMonths = 0 ∨ 0 ≤ d.allSeconds ∨
    -d.allSeconds % (86400 * decimalPartPow) < 60 * decimalPartPow

instance : Decidable d.Total := inferInstanceAs (Decidable (_ ∨ _ ∨ _))

-- The day that is reached from the start of a month.
def dayReached (year : ℤ) (month : ℕ) (d : Duration) : ℤ :=
  let days := d.allSeconds.tdiv (86400 * decimalPartPow)
  if d.allMonths = 0 then
    monthStart year month + days
  else
    let reached := foundMonth year month d.allMonths
    wrapDay reached.1 (monthStart reached.1 reached.2 + days)

-- The point in time that is reached from the start of a month.
def reached (year : ℤ) (month : ℕ) (d : Duration) : ℤ :=
  86400 * decimalPartPow * dayReached year month d + d.allSeconds.tmod (86400 * decimalPartPow)

theorem carriedDay_zero (s : ℤ) : carriedDay 0 0 s = s.tdiv (86400 * decimalPartPow) := by
  unfold carriedDay carriedHour carriedMinute
  rw [zero_add, zero_add, Int.tdiv_tdiv, Int.tdiv_tdiv]
  rfl

theorem carriesNonneg_zero_iff (s : ℤ) :
    CarriesNonneg 0 0 s ↔ 0 ≤ s ∨ -s % (86400 * decimalPartPow) < 60 * decimalPartPow := by
  unfold CarriesNonneg carriedHour carriedMinute decimalPartPow
  simp only [zero_add]
  rcases le_total 0 s with h | h
  case inl =>
    have h₁ : 0 ≤ s / (60 * 10 ^ 18) := by omega
    rw [Int.tdiv_eq_ediv_of_nonneg h, Int.tdiv_eq_ediv_of_nonneg h₁]
    exact iff_of_true ⟨Int.tmod_nonneg _ h₁, Int.tmod_nonneg _ (by omega)⟩ (.inl h)
  case inr =>
    have h₁ : 0 ≤ -s / (60 * 10 ^ 18) := by omega
    rw [Int.tdiv_of_nonpos h, Int.tmod_of_nonpos (by omega), Int.tdiv_of_nonpos (by omega), neg_neg,
      Int.tmod_of_nonpos (by omega), neg_neg]
    omega

section Start

variable {t : Timestamp}

theorem isDateTime_start (hm : 1 ≤ month ∧ month ≤ 12) : IsDateTime year month 1 0 0 0 none :=
  { one_le_month  := hm.1
    month_le      := hm.2
    one_le_day    := le_rfl
    day_le        := le_trans (by decide) (daysInMonth_mem _ _).1
    hour_lt       := by decide
    minute_lt     := by decide
    second_nonneg := le_rfl
    second_lt     := by decide
    offset_mem    := by simp }

theorem value_start (h : DateTime.new year month 1 0 0 0 none = some t) :
    t.value.toInt = 86400 * decimalPartPow * monthStart year month := by
  rw [value_of_new h, minutesOnTimeline, monthStart]
  simp
  ring

theorem properties_start (hm : 1 ≤ month ∧ month ≤ 12)
    (h : DateTime.new year month 1 0 0 0 none = some t) :
    (t.year, t.month, t.day, t.hour, t.minute, t.second) = (year, month, 1, 0, 0, 0) := by
  have hd : IsDateTime year month 1 0 0 0 none := isDateTime_start hm
  rw [hd.components_iff h, hd.misread_iff h]
  exact fun hr => absurd hr.2 (by decide)

theorem foundMonth_year_mem (hm : 1 ≤ month ∧ month ≤ 12) (hy : 0 < year ∧ year < 10000)
    (hd : -12000000 < months ∧ months < 12000000) :
    -10 ^ 7 < (foundMonth year month months).1 ∧ (foundMonth year month months).1 < 10 ^ 7 := by
  have h := monthsLater_spec year month months
  unfold foundMonth
  split
  case isTrue =>
    simp only
    omega
  case isFalse => omega

theorem yearStart_mem (hy : -10 ^ 7 < year ∧ year < 10 ^ 7) :
    -10 ^ 10 < yearStart year ∧ yearStart year < 10 ^ 10 := by
  rw [yearStart, daysOnTimeline_eq]
  simp only [monthsLength, List.range'_zero, List.map_nil, List.sum_nil]
  omega

theorem monthStart_mem (hm : 1 ≤ month ∧ month ≤ 12) (hy : -10 ^ 7 < year ∧ year < 10 ^ 7) :
    -10 ^ 10 < monthStart year month ∧ monthStart year month < 10 ^ 10 + 366 := by
  have hs := yearStart_mem hy
  have h₀ : 0 ≤ monthsLength year 1 (month - 1) := monthsLength_le (Nat.zero_le _)
  have h₁ : monthsLength year 1 (month - 1) ≤ yearLength year := monthsLength_le (by omega)
  rw [yearLength_eq] at h₁
  rw [monthStart_eq hm.1]
  split at h₁ <;> omega

theorem wrapDay_le (y day : ℤ) : wrapDay y day ≤ max day (yearStart y + 62) := by
  have h := monthsLength_two y
  have hf := daysInMonth_mem (some y) 2
  have hl := Int.emod_lt_of_pos (day - yearStart y) (by omega : 0 < monthsLength y 1 2)
  unfold wrapDay
  split <;> omega

theorem Small.days_mem (hd : d.Small) :
    -366000000 ≤ d.allSeconds.tdiv (86400 * decimalPartPow) ∧
      d.allSeconds.tdiv (86400 * decimalPartPow) ≤ 366000000 := by
  have h := hd.seconds_mem
  unfold decimalPartPow at *
  rcases le_total 0 d.allSeconds with hs | hs
  · rw [Int.tdiv_eq_ediv_of_nonneg hs]
    omega
  · rw [Int.tdiv_of_nonpos hs]
    omega

theorem dayReached_mem (hd : d.Small) (hm : 1 ≤ month ∧ month ≤ 12) (hy : 0 < year ∧ year < 10000) :
    -10 ^ 11 < dayReached year month d ∧ dayReached year month d < 10 ^ 11 := by
  have hs := hd.days_mem
  unfold dayReached
  dsimp only
  split
  case isTrue =>
    have := monthStart_mem hm (by omega : -10 ^ 7 < year ∧ _)
    omega
  case isFalse =>
    have h₁ := foundMonth_mem year month d.allMonths
    have h₂ := foundMonth_year_mem hm hy hd.months_mem
    generalize foundMonth year month d.allMonths = r at *
    have hy := yearStart_mem h₂
    have := monthStart_mem h₁ h₂
    have hl := le_wrapDay r.1 (monthStart r.1 r.2 + d.allSeconds.tdiv (86400 * decimalPartPow))
    have hu := wrapDay_le r.1 (monthStart r.1 r.2 + d.allSeconds.tdiv (86400 * decimalPartPow))
    omega

-- What is reached can be represented, and also the start of its minute.
theorem checked_reached (hd : d.Small) (hm : 1 ≤ month ∧ month ≤ 12) (hy : 0 < year ∧ year < 10000)
    (hx : -10 ^ 20 < x ∧ x < 10 ^ 20) :
    checked (reached year month d + x) = some (reached year month d + x) := by
  have h₁ := dayReached_mem hd hm hy
  have h₂ := Int.lt_tmod_of_pos d.allSeconds (by decide : 0 < 86400 * decimalPartPow)
  have h₃ := Int.tmod_lt_of_pos d.allSeconds (by decide : 0 < 86400 * decimalPartPow)
  apply Int.checked_of_mem
  unfold reached decimalPartPow at *
  omega

theorem foundValue_start (hm : 1 ≤ month ∧ month ≤ 12)
    (h : DateTime.new year month 1 0 0 0 none = some t) (h₀ : d.allMonths ≠ 0) :
    t.foundValue d.allMonths d.allSeconds = reached year month d := by
  have hp := properties_start hm h
  simp only [Prod.mk.injEq] at hp
  obtain ⟨hpy, hpm, hpd, hph, hpmi, hps⟩ := hp
  have hoff : t.offset = 0 := (isDateTime_start hm).offset_eq h
  have hsum := Int.mul_tdiv_add_tmod d.allSeconds (86400 * decimalPartPow)
  simp only [Timestamp.foundValue, Timestamp.foundDay, Timestamp.readTime, reached, dayReached,
    if_neg h₀, hpy, hpm, hpd, hph, hpmi, hps, hoff, Nat.cast_zero, zero_add, carriedDay_zero]
  generalize foundMonth year month d.allMonths = found at *
  have hdim := (daysInMonth_mem (some found.1) found.2).1
  have hmin : ((min 1 (daysInMonth (some found.1) found.2) : ℕ) : ℤ) = 1 := by omega
  have hday (x : ℤ) :
      monthStart found.1 found.2 + (1 + x) - 1 = monthStart found.1 found.2 + x := by
    ring
  rw [hmin, hday]
  linear_combination -hsum

theorem plus_start (hd : d.Small) (hm : 1 ≤ month ∧ month ≤ 12) (hy : 0 < year ∧ year < 10000)
    (h : DateTime.new year month 1 0 0 0 none = some t) (h₀ : d.allMonths ≠ 0)
    (hc : CarriesNonneg 0 0 d.allSeconds) :
    plus t d = some { t with value := .ofInt 128 (reached year month d) } := by
  have hp := properties_start hm h
  simp only [Prod.mk.injEq] at hp
  obtain ⟨-, hpm, -, hph, hpmi, hps⟩ := hp
  have hmonths := hd.months_mem
  have hv := foundValue_start hm h h₀
  have hcheck := checked_reached hd hm hy (by decide : (-10 ^ 20 : ℤ) < 0 ∧ (0 : ℤ) < 10 ^ 20)
  rw [add_zero] at hcheck
  refine (plus_eq_some_iff_found t d _).mpr ⟨?_, ?_, rfl⟩
  case refine_2 => rw [hv, Int.toInt_ofInt_of_checked (by decide) hcheck]
  constructor <;> simp only [hpm, hph, hpmi, hps, hv, Nat.cast_zero, zero_add]
  case month_mem =>
    rw [checked_i64 (by omega)]
    simp
  case second_mem =>
    have : checked d.allSeconds = some d.allSeconds := Int.checked_toInt d.dayTime
    simp [this]
  case carries => exact hc
  case minute_mem =>
    have h₁ := Int.lt_tmod_of_pos d.allSeconds (by decide : 0 < 60 * decimalPartPow)
    have h₂ := Int.tmod_lt_of_pos d.allSeconds (by decide : 0 < 60 * decimalPartPow)
    unfold decimalPartPow at h₁ h₂
    rw [sub_eq_add_neg, checked_reached hd hm hy (by unfold decimalPartPow; omega)]
    simp

theorem exists_start (hm : 1 ≤ month ∧ month ≤ 12) (hy : 0 < year ∧ year < 10000) :
    ∃ value, DateTime.new year month 1 0 0 0 none = some ⟨value, none⟩ := by
  have hs := monthStart_mem hm (by omega : -10 ^ 7 < year ∧ _)
  have he : minutesOnTimeline year month 1 0 0 none * (60 * decimalPartPow) =
      86400 * decimalPartPow * monthStart year month := by
    simp only [minutesOnTimeline, monthStart, Nat.sub_self, Nat.cast_zero, Option.getD_none]
    ring
  have hc : checked (86400 * decimalPartPow * monthStart year month) =
      some (86400 * decimalPartPow * monthStart year month) := by
    apply Int.checked_of_mem
    unfold decimalPartPow
    omega
  refine ⟨.ofInt 128 (86400 * decimalPartPow * monthStart year month), new_eq_some_iff.mpr ?_⟩
  rw [he, add_zero, Int.toInt_ofInt_of_checked (by decide) hc, hc]
  simp

theorem total_iff (h₀ : d.allMonths ≠ 0) : d.Total ↔ CarriesNonneg 0 0 d.allSeconds := by
  rw [carriesNonneg_zero_iff, Total, or_iff_right h₀]

theorem checkedAddDuration_start (hd : d.Small) (hm : 1 ≤ month ∧ month ≤ 12)
    (hy : 0 < year ∧ year < 10000) (h : DateTime.new year month 1 0 0 0 none = some t) :
    checkedAddDuration t d =
      if d.Total then some { t with value := .ofInt 128 (reached year month d) } else none := by
  unfold checkedAddDuration
  by_cases h₀ : d.allMonths = 0
  case pos =>
    have hsum := Int.mul_tdiv_add_tmod d.allSeconds (86400 * decimalPartPow)
    have hr : t.value.toInt + d.allSeconds = reached year month d := by
      rw [value_start h, reached, dayReached, if_pos h₀]
      linear_combination -hsum
    have hc := checked_reached hd hm hy (by decide : (-10 ^ 20 : ℤ) < 0 ∧ (0 : ℤ) < 10 ^ 20)
    rw [if_pos h₀, if_pos (.inl h₀), Timestamp.checkedAddSeconds, checkedAdd, hr]
    rw [add_zero] at hc
    rw [hc]
    rfl
  case neg =>
    rw [if_neg h₀]
    split
    case isTrue ht => exact plus_start hd hm hy h h₀ ((total_iff h₀).mp ht)
    case isFalse ht =>
      have hp := properties_start hm h
      simp only [Prod.mk.injEq] at hp
      apply plus_eq_none
      rw [hp.2.2.2.1, hp.2.2.2.2.1, hp.2.2.2.2.2, zero_add]
      exact (total_iff h₀).not.mp ht

-- The value of a sum with the start of a month.
theorem value_sum {t' : Timestamp} (hm : 1 ≤ month ∧ month ≤ 12)
    (h : DateTime.new year month 1 0 0 0 none = some t) (hs : checkedAddDuration t d = some t') :
    t'.value.toInt = reached year month d ∧ t'.timezoneOffset = none := by
  have hz : t.timezoneOffset = none := (new_eq_some_iff.mp h).2.2
  unfold checkedAddDuration at hs
  split at hs
  case isTrue h₀ =>
    simp only [Timestamp.checkedAddSeconds, checkedAdd, Option.bind_eq_bind,
      Option.bind_eq_some_iff] at hs
    obtain ⟨x, hx, hs⟩ := hs
    cases hs
    refine ⟨?_, hz⟩
    rw [Int.toInt_ofInt_of_checked (by decide) hx, ← (Int.checked_eq_some_iff.mp hx).1,
      value_start h, reached, dayReached, if_pos h₀]
    linear_combination -Int.mul_tdiv_add_tmod d.allSeconds (86400 * decimalPartPow)
  case isFalse h₀ =>
    obtain ⟨-, hv, hz'⟩ := (plus_eq_some_iff_found t d t').mp hs
    exact ⟨hv.trans (foundValue_start hm h h₀), hz'.trans hz⟩

end Start

-- A duration can be added to the start of a month.
def Reaches (start : ℤ × ℕ) (d : Duration) : Prop :=
  ∃ first, DateTime.new start.1 start.2 1 0 0 0 none = some first ∧
    (checkedAddDuration first d).isSome

theorem reaches_iff (hd : d.Small) (hm : 1 ≤ month ∧ month ≤ 12) (hy : 0 < year ∧ year < 10000) :
    Reaches (year, month) d ↔ d.Total := by
  obtain ⟨value, hn⟩ := exists_start hm hy
  simp only [Reaches, hn, Option.some.injEq, exists_eq_left',
    checkedAddDuration_start hd hm hy hn]
  split <;> simp_all

-- The order of the points in time that are reached from the start of a month.
theorem compareFrom_eq_some_iff (hm : 1 ≤ month ∧ month ≤ 12) :
    compareFrom year month a b = some result ↔
      (Reaches (year, month) a ∧ Reaches (year, month) b) ∧
        some (compare (reached year month a) (reached year month b)) = result := by
  have hn : compareFrom year month a b =
      (DateTime.new year month 1 0 0 0 none).bind fun first =>
        (checkedAddDuration first a).bind fun ta =>
          (checkedAddDuration first b).bind fun tb => some (ta.partialCmp tb) := rfl
  rw [hn]
  unfold Reaches
  dsimp only
  rcases hf : DateTime.new year month 1 0 0 0 none with _ | first
  case none => simp
  rcases ha : checkedAddDuration first a with _ | ta
  case none => simp [ha]
  rcases hb : checkedAddDuration first b with _ | tb
  case none => simp [ha, hb]
  have ⟨hva, hza⟩ := value_sum hm hf ha
  have ⟨hvb, hzb⟩ := value_sum hm hf hb
  simp [ha, hb, Timestamp.partialCmp, hza, hzb, hva, hvb]

-- The starts of months that durations are added to.
def starts : List (ℤ × ℕ) := [(1969, 9), (1697, 2), (1903, 3), (1903, 7)]

theorem partialCmp_eq_some_iff : a.partialCmp b = some ordering ↔
    ∀ start ∈ starts, (Reaches start a ∧ Reaches start b) ∧
      compare (reached start.1 start.2 a) (reached start.1 start.2 b) = ordering := by
  unfold partialCmp starts
  simp only [Option.bind_eq_bind, Option.bind_eq_some_iff, List.forall_mem_cons,
    compareFrom_eq_some_iff (show 1 ≤ 9 ∧ 9 ≤ 12 by decide),
    compareFrom_eq_some_iff (show 1 ≤ 2 ∧ 2 ≤ 12 by decide),
    compareFrom_eq_some_iff (show 1 ≤ 3 ∧ 3 ≤ 12 by decide),
    compareFrom_eq_some_iff (show 1 ≤ 7 ∧ 7 ≤ 12 by decide)]
  grind

theorem partialCmp_eq (ha : a.Small) (hb : b.Small) :
    a.partialCmp b = some ordering ↔
      (a.Total ∧ b.Total) ∧ ∀ start ∈ starts,
        compare (reached start.1 start.2 a) (reached start.1 start.2 b) = ordering := by
  have hs : ∀ start ∈ starts, (Reaches start a ↔ a.Total) ∧ (Reaches start b ↔ b.Total) := by
    have h : ∀ start ∈ starts, (1 ≤ start.2 ∧ start.2 ≤ 12) ∧ 0 < start.1 ∧ start.1 < 10000 := by
      decide
    intro start hs
    have ⟨hm, hy⟩ := h start hs
    exact ⟨reaches_iff ha hm hy, reaches_iff hb hm hy⟩
  rw [partialCmp_eq_some_iff]
  constructor
  case mp =>
    intro h
    have ⟨hr, _⟩ := h (1969, 9) (by decide)
    rw [(hs _ (by decide)).1, (hs _ (by decide)).2] at hr
    exact ⟨hr, fun start h' => (h start h').2⟩
  case mpr =>
    rintro ⟨⟨hta, htb⟩, h⟩ start h'
    exact ⟨⟨(hs start h').1.mpr hta, (hs start h').2.mpr htb⟩, h start h'⟩

theorem partialCmp_swap (a b : Duration) : b.partialCmp a = (a.partialCmp b).map .swap := by
  apply Option.eq_map_swap
  intro ordering
  simp only [partialCmp_eq_some_iff, Int.compare_eq_iff_swap (o := ordering),
    and_comm (b := Reaches _ b)]

section Kinds

theorem monthStart_lt {y y' : ℤ} {m m' : ℕ} (hm : 1 ≤ m ∧ m ≤ 12) (hm' : 1 ≤ m' ∧ m' ≤ 12)
    (h : 12 * y + m < 12 * y' + m') : monthStart y m < monthStart y' m' := by
  have hs := monthStart_succ (y := y) hm.1
  have hd := (daysInMonth_mem (some y) m).1
  rcases eq_or_lt_of_le (by omega : y ≤ y') with rfl | hy
  case inl =>
    have hl : monthsLength y 1 m ≤ monthsLength y 1 (m' - 1) := monthsLength_le (by omega)
    rw [monthStart_eq (by omega), Nat.add_sub_cancel] at hs
    rw [monthStart_eq hm'.1]
    omega
  case inr =>
    have hl : monthsLength y 1 m ≤ yearLength y := monthsLength_le hm.2
    have hn := yearStart_add_yearLength_le hy
    have h₀ : 0 ≤ monthsLength y' 1 (m' - 1) := monthsLength_le (Nat.zero_le _)
    rw [monthStart_eq (by omega), Nat.add_sub_cancel] at hs
    rw [monthStart_eq hm'.1]
    omega

-- Only the month before January is not found.
theorem reached_months {m : BitVec 64} (hm : 1 ≤ month ∧ month ≤ 12) (h : month + m.toInt ≠ 0) :
    reached year month (ofYearMonth m) = 86400 * decimalPartPow *
      monthStart (monthsLater year month m.toInt).1 (monthsLater year month m.toInt).2 := by
  have hl := (monthsLater_spec year month m.toInt).1
  have hs : allSeconds (ofYearMonth m) = 0 := rfl
  have ha : allMonths (ofYearMonth m) = m.toInt := rfl
  have h₀ : 0 ≤ monthsLength (monthsLater year month m.toInt).1 1
      ((monthsLater year month m.toInt).2 - 1) := monthsLength_le (Nat.zero_le _)
  simp only [reached, dayReached, foundMonth, hs, ha, if_neg h, Int.zero_tdiv, Int.zero_tmod,
    add_zero]
  split
  case isTrue hz =>
    have hy : monthsLater year month 0 = (year, month) := by
      unfold monthsLater
      congr 1 <;> omega
    rw [hz, hy]
  case isFalse => rw [wrapDay, if_pos (by rw [monthStart_eq hl.1]; omega)]

theorem compare_reached_months {m n : BitVec 64} (hm : 1 ≤ month ∧ month ≤ 12)
    (h : month + m.toInt ≠ 0) (h' : month + n.toInt ≠ 0) :
    compare (reached year month (ofYearMonth m)) (reached year month (ofYearMonth n)) =
      compare m.toInt n.toInt := by
  have hp : 0 < 86400 * decimalPartPow := by decide
  have hs := monthsLater_spec year month m.toInt
  have hs' := monthsLater_spec year month n.toInt
  rw [reached_months hm h, reached_months hm h']
  apply Int.compare_congr
  · exact fun hl => Int.mul_lt_mul_of_pos_left (monthStart_lt hs.1 hs'.1 (by omega)) hp
  · exact fun he => by rw [he]
  · exact fun hl => Int.mul_lt_mul_of_pos_left (monthStart_lt hs'.1 hs.1 (by omega)) hp

theorem reached_seconds (s : BitVec 128) : reached year month (ofDayTime s) =
    86400 * decimalPartPow * monthStart year month + s.toInt := by
  have hm : allMonths (ofDayTime s) = 0 := rfl
  have hs : allSeconds (ofDayTime s) = s.toInt := rfl
  rw [reached, dayReached, if_pos hm, hs]
  linear_combination Int.mul_tdiv_add_tmod s.toInt (86400 * decimalPartPow)

theorem compare_reached_seconds (s s' : BitVec 128) :
    compare (reached year month (ofDayTime s)) (reached year month (ofDayTime s')) =
      compare s.toInt s'.toInt := by
  rw [reached_seconds, reached_seconds]
  apply Int.compare_congr <;> omega

-- There are more starts than durations.
theorem exists_start_ne (x y z : ℤ) : ∃ start ∈ starts, (1 ≤ start.2 ∧ start.2 ≤ 12) ∧
    start.2 + x ≠ 0 ∧ start.2 + y ≠ 0 ∧ start.2 + z ≠ 0 := by
  simp only [starts, List.mem_cons, List.not_mem_nil, or_false, exists_eq_or_imp, exists_eq_left]
  omega

end Kinds

-- The laws of a partial order that is consistent with equality.
structure Laws (a b c : Duration) : Prop where
  refl  : a.partialCmp a = some .eq
  eq    : a.partialCmp b = some .eq → a = b
  swap  : b.partialCmp a = (a.partialCmp b).map .swap
  trans : a.partialCmp b = some .lt → b.partialCmp c = some .lt →
    a.partialCmp c = some .lt

theorem partialCmp_self_iff (ha : a.Small) : a.partialCmp a = some .eq ↔ a.Total := by
  simp [partialCmp_eq ha ha, starts]

theorem partialCmp_trans (ha : a.Small) (hb : b.Small) (hc : c.Small)
    (hab : a.partialCmp b = some .lt) (hbc : b.partialCmp c = some .lt) :
    a.partialCmp c = some .lt := by
  rw [partialCmp_eq ha hb] at hab
  rw [partialCmp_eq hb hc] at hbc
  rw [partialCmp_eq ha hc]
  exact ⟨⟨hab.1.1, hbc.1.2⟩, fun start hs =>
    Std.TransCmp.lt_trans (hab.2 start hs) (hbc.2 start hs)⟩

-- The order is a partial order as far as sums are defined, and as durations are told apart by what
-- is reached from the four months.
theorem laws_iff (ha : a.Small) (hb : b.Small) (hc : c.Small) :
    Laws a b c ↔ a.Total ∧ (b.Total →
      (∀ start ∈ starts, reached start.1 start.2 a = reached start.1 start.2 b) → a = b) where
  mp h := by
    have ht := (partialCmp_self_iff ha).mp h.refl
    refine ⟨ht, fun htb hr => h.eq ?_⟩
    rw [partialCmp_eq ha hb]
    exact ⟨⟨ht, htb⟩, fun start hs => hr start hs ▸ Std.ReflCmp.compare_self⟩
  mpr := by
    rintro ⟨ht, he⟩
    refine ⟨(partialCmp_self_iff ha).mpr ht, fun h => ?_, partialCmp_swap a b,
      partialCmp_trans ha hb hc⟩
    have ⟨⟨_, htb⟩, hr⟩ := (partialCmp_eq ha hb).mp h
    exact he htb fun start hs => Std.LawfulEqCmp.eq_of_compare (hr start hs)

-- P1M, P1Y and P2Y
theorem laws_monthYear : Laws ⟨1, 0⟩ ⟨12, 0⟩ ⟨24, 0⟩ := by
  have hs : Small ⟨1, 0⟩ ∧ Small ⟨12, 0⟩ ∧ Small ⟨24, 0⟩ := by
    refine ⟨⟨?_, ?_⟩, ⟨?_, ?_⟩, ⟨?_, ?_⟩⟩ <;> decide
  refine (laws_iff hs.1 hs.2.1 hs.2.2).mpr ⟨by decide, fun _ h => ?_⟩
  exact absurd (h (1969, 9) (by decide)) (by decide)

-- -P1MT1M cannot be compared with itself, and P2Y cannot be told apart from P1Y365D.
theorem not_laws :
    ¬Laws ⟨-1, -60000000000000000000⟩ ⟨-1, -60000000000000000000⟩ ⟨-1, -60000000000000000000⟩ ∧
      ¬Laws ⟨24, 0⟩ ⟨12, 31536000000000000000000000⟩ ⟨12, 31536000000000000000000000⟩ := by
  refine ⟨fun h => absurd h.refl (by decide), fun h => ?_⟩
  exact absurd (h.eq (by decide)) (by decide)

end Duration
