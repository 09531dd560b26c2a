import Mathlib.Data.Prod.Lex
import Mathlib.Tactic

-- The days of the proleptic Gregorian calendar.

namespace Gregorian

def IsLeap (year : ℕ) : Prop := 4 ∣ year ∧ (100 ∣ year → 400 ∣ year)

instance decidableIsLeap (year : ℕ) : Decidable (IsLeap year) := by
  unfold IsLeap
  infer_instance

def monthLength (year month : ℕ) : ℕ :=
  if month = 2 then
    if IsLeap year then 29 else 28
  else if month = 4 ∨ month = 6 ∨ month = 9 ∨ month = 11 then
    30
  else
    31

structure Date where
  year  : ℕ
  month : ℕ
  day   : ℕ
  deriving DecidableEq

namespace Date

def next (date : Date) : Date :=
  if date.day < monthLength date.year date.month then
    { date with day := date.day + 1 }
  else if date.month < 12 then
    { date with month := date.month + 1, day := 1 }
  else
    ⟨date.year + 1, 1, 1⟩

variable {date : Date}

theorem next_of_day_lt (h : date.day < monthLength date.year date.month) :
    date.next = { date with day := date.day + 1 } := if_pos h

theorem next_of_month_lt (h : ¬date.day < monthLength date.year date.month)
    (hm : date.month < 12) : date.next = { date with month := date.month + 1, day := 1 } :=
  (if_neg h).trans (if_pos hm)

theorem next_of_last (h : ¬date.day < monthLength date.year date.month)
    (hm : ¬date.month < 12) : date.next = ⟨date.year + 1, 1, 1⟩ :=
  (if_neg h).trans (if_neg hm)

-- Dates are ordered by year, month and day.
def order (date : Date) : ℕ ×ₗ ℕ ×ₗ ℕ := toLex (date.year, toLex (date.month, date.day))

theorem order_lt_next (date : Date) : date.order < date.next.order := by
  unfold next
  split
  case isTrue => exact .right _ (.right _ (Nat.lt_succ_self _))
  case isFalse =>
    split
    case isTrue => exact .right _ (.left _ _ (Nat.lt_succ_self _))
    case isFalse => exact .left _ _ (Nat.lt_succ_self _)

theorem strictMono_iterate_next (date : Date) : StrictMono fun n => (next^[n] date).order := by
  refine strictMono_nat_of_lt_succ fun n => ?_
  rw [Function.iterate_succ_apply']
  exact order_lt_next _

end Date

-- Years that start in March end with the leap day. Before the given one there are so many days.
def marchStart (year : ℕ) : ℕ := 365 * year + year / 4 - year / 100 + year / 400

def marchLength (year : ℕ) : ℕ := if IsLeap (year + 1) then 366 else 365

theorem marchStart_succ (year : ℕ) :
    marchStart (year + 1) = marchStart year + marchLength year := by
  have h₄ : 100 ∣ year + 1 → 4 ∣ year + 1 := (by decide : 4 ∣ 100).trans
  have h₁₀₀ : 400 ∣ year + 1 → 100 ∣ year + 1 := (by decide : 100 ∣ 400).trans
  have hle : year / 100 ≤ year / 4 := Nat.div_le_div_left (by decide) (by decide)
  unfold marchStart marchLength IsLeap
  simp only [Nat.succ_div]
  generalize year / 4 = a, year / 100 = b, year / 400 = c at *
  by_cases 4 ∣ year + 1 <;> by_cases 100 ∣ year + 1 <;> by_cases 400 ∣ year + 1 <;>
    simp_all <;> omega

theorem marchStart_mono : Monotone marchStart :=
  monotone_nat_of_le_succ fun year => marchStart_succ year ▸ Nat.le_add_right ..

-- The month and the day of a day of such a year.
def marchDay (day : ℕ) : ℕ × ℕ :=
  let m := (5 * day + 2) / 153
  (if m < 10 then m + 3 else m - 9, day - (153 * m + 2) / 5 + 1)

def Date.ofMarch (year day : ℕ) : Date where
  year  := if (marchDay day).1 ≤ 2 then year + 1 else year
  month := (marchDay day).1
  day   := (marchDay day).2

theorem monthLength_of_ne_two (h : m ≠ 2) : monthLength y m = monthLength 0 m := by
  rw [monthLength, monthLength, if_neg h, if_neg h]

-- The lengths of the months from March to January do not depend on the year.
theorem marchDay_succ : ∀ d < 337, (marchDay d).1 ≠ 2 ∧ (marchDay d).1 ≤ 12 ∧ marchDay (d + 1) =
    if (marchDay d).2 < monthLength 0 (marchDay d).1 then ((marchDay d).1, (marchDay d).2 + 1)
    else if (marchDay d).1 < 12 then ((marchDay d).1 + 1, 1)
    else (1, 1) := by
  decide +kernel

theorem marchDay_february : ∀ d < 366, 337 ≤ d → marchDay d = (2, d - 336) := by
  decide +kernel

theorem monthLength_february (y : ℕ) : monthLength (y + 1) 2 = marchLength y - 337 := by
  rw [monthLength, marchLength, if_pos rfl]
  split <;> rfl

theorem next_ofMarch (h : d < marchLength y) : (Date.ofMarch y d).next =
    if d + 1 < marchLength y then .ofMarch y (d + 1) else .ofMarch (y + 1) 0 := by
  have hl : 365 ≤ marchLength y ∧ marchLength y ≤ 366 := by
    unfold marchLength
    split <;> omega
  rcases lt_or_ge d 337
  case inl hd =>
    obtain ⟨hm, hm', hs⟩ := marchDay_succ d hd
    have hlen : monthLength (Date.ofMarch y d).year (Date.ofMarch y d).month = _ :=
      monthLength_of_ne_two hm
    rw [if_pos (by omega), Date.ofMarch.eq_def y (d + 1), hs]
    by_cases hday : (marchDay d).2 < monthLength 0 (marchDay d).1
    case pos =>
      rw [Date.next_of_day_lt (hlen ▸ hday), if_pos hday]
      rfl
    case neg =>
      by_cases hn : (marchDay d).1 < 12
      case pos =>
        have hy : (marchDay d).1 + 1 ≤ 2 ↔ (marchDay d).1 ≤ 2 := by omega
        rw [Date.next_of_month_lt (hlen ▸ hday) hn, if_neg hday, if_pos hn]
        simp only [hy]
        rfl
      case neg =>
        have hy : (Date.ofMarch y d).year = y := if_neg (by omega)
        rw [Date.next_of_last (hlen ▸ hday) hn, if_neg hday, if_neg hn, hy]
        rfl
  case inr hd =>
    have hy {d} (hd : 337 ≤ d) (hl : d < 366) : Date.ofMarch y d = ⟨y + 1, 2, d - 336⟩ := by
      rw [Date.ofMarch, marchDay_february d hl hd]
      rfl
    have hlen := monthLength_february y
    rw [hy hd (by omega)]
    rcases lt_or_ge (d + 1) (marchLength y)
    case inl hn =>
      rw [if_pos hn, hy (by omega) (by omega), Nat.sub_add_comm (by omega)]
      have hday : d - 336 < monthLength (y + 1) 2 := by omega
      exact Date.next_of_day_lt hday
    case inr hn =>
      rw [if_neg (by omega)]
      have hday : ¬d - 336 < monthLength (y + 1) 2 := by omega
      exact Date.next_of_month_lt hday (Nat.lt_of_sub_eq_succ rfl)

end Gregorian
