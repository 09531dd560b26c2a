import OxigraphCloud.Datatypes.DateTime

-- Adding durations to points in time.
namespace Duration

open Datatypes

def allMonths (d : Duration) : ℤ := d.yearMonth.toInt

def allSeconds (d : Duration) : ℤ := d.dayTime.toInt

def checkedNeg (d : Duration) : Option Duration := do
  return {
    yearMonth := .ofInt 64 (← Int.checked 64 (-d.allMonths))
    dayTime   := .ofInt 128 (← Decimal.checkedNeg d.allSeconds) }

end Duration

namespace Datatypes

-- `u8::try_from`
def toU8 (n : ℤ) : Option ℕ := if 0 ≤ n ∧ n < 256 then some n.toNat else none

def normalizeMonth (yr mo : ℤ) : Option (ℤ × ℕ) := do
  let before ← Int.checked 64 (mo - 1)
  if 0 ≤ mo then
    let yr ← Int.checked 64 (yr + before.tdiv 12)
    let mo ← toU8 (← Int.checked 64 (|before.tmod 12| + 1))
    return (yr, mo)
  else
    -- Needed to make it work with negative durations
    let yr ← Int.checked 64 (yr + (← Int.checked 64 (before.tdiv 12 - 1)))
    let mo ← toU8 (← Int.checked 64 ((← Int.checked 64 (12 + before.tmod 12)) + 1))
    return (yr, mo)

-- The loop of `normalize_day`. A round adds or removes the days of a month.
def normalizeDayLoop (yr : ℤ) (mo : ℕ) (da : ℤ) : (fuel : ℕ) → Option (ℤ × ℕ × ℕ)
  | 0        => none
  | fuel + 1 => do
    if da ≤ 0 then
      let (yr, mo) ← normalizeMonth yr (mo - 1)
      let da ← Int.checked 64 (da + daysInMonth (some yr) mo)
      normalizeDayLoop yr mo da fuel
    else if daysInMonth (some yr) mo < da then
      let da ← Int.checked 64 (da - daysInMonth (some yr) mo)
      let (yr, mo) ← normalizeMonth yr (mo + 1)
      normalizeDayLoop yr mo da fuel
    else
      return (yr, mo, ← toU8 da)

-- There are fewer rounds than days.
def normalizeDay (yr mo da : ℤ) : Option (ℤ × ℕ × ℕ) := do
  let (yr, mo) ← normalizeMonth yr mo
  normalizeDayLoop yr mo da (da.natAbs + 2)

def normalizeMinute (yr mo da hr mi : ℤ) : Option (ℤ × ℕ × ℕ × ℕ × ℕ) := do
  let hr ← Int.checked 64 (hr + mi.tdiv 60)
  let mi := mi.tmod 60
  let da ← Int.checked 64 (da + hr.tdiv 24)
  let hr := hr.tmod 24
  let (yr, mo, da) ← normalizeDay yr mo da
  return (yr, mo, da, ← toU8 hr, ← toU8 mi)

def normalizeSecond (yr mo da hr mi se : ℤ) : Option (ℤ × ℕ × ℕ × ℕ × ℕ × ℤ) := do
  let mi ← Int.checked 64 (mi + (← Int.checked 64 ((Decimal.asI128 se).tdiv 60)))
  let se := se.tmod (60 * Decimal.decimalPartPow)
  let (yr, mo, da, hr, mi) ← normalizeMinute yr mo da hr mi
  return (yr, mo, da, hr, mi, se)

def dateTimePlusDuration (du : Duration) (dt : DateTimeSevenPropertyModel) :
    Option DateTimeSevenPropertyModel := do
  let yr := dt.year.getD 1
  let mo := dt.month.getD 1
  let da := dt.day.getD 1
  let hr := dt.hour.getD 0
  let mi := dt.minute.getD 0
  let se := dt.second.getD 0
  let mo ← Int.checked 64 (mo + du.allMonths)
  let (yr, mo) ← normalizeMonth yr mo
  let da := min da (daysInMonth (some yr) mo)
  let se ← Decimal.checkedAdd se du.allSeconds
  let (yr, mo, da, hr, mi, se) ← normalizeSecond yr mo da hr mi se
  return {
    year           := dt.year.map fun _ => yr
    month          := dt.month.map fun _ => mo
    day            := dt.day.map fun _ => da
    hour           := dt.hour.map fun _ => hr
    minute         := dt.minute.map fun _ => mi
    second         := dt.second.map fun _ => se
    timezoneOffset := dt.timezoneOffset }

end Datatypes

namespace Timestamp

open Datatypes

def checkedAddSeconds (t : Timestamp) (seconds : ℤ) : Option Timestamp := do
  return { t with value := .ofInt 128 (← Decimal.checkedAdd t.value.toInt seconds) }

def checkedSubSeconds (t : Timestamp) (seconds : ℤ) : Option Timestamp := do
  return { t with value := .ofInt 128 (← Decimal.checkedSub t.value.toInt seconds) }

end Timestamp

namespace Datatypes.DateTime

def properties (t : Timestamp) : DateTimeSevenPropertyModel where
  year           := t.year
  month          := t.month
  day            := t.day
  hour           := t.hour
  minute         := t.minute
  second         := t.second
  timezoneOffset := t.timezoneOffset.map (·.toInt)

-- A duration without months is added on the timeline.
def checkedAddDuration (t : Timestamp) (rhs : Duration) : Option Timestamp :=
  if rhs.allMonths = 0 then
    t.checkedAddSeconds rhs.allSeconds
  else do
    Timestamp.new (← dateTimePlusDuration rhs (properties t))

def checkedSubDuration (t : Timestamp) (rhs : Duration) : Option Timestamp :=
  if rhs.allMonths = 0 then
    t.checkedSubSeconds rhs.allSeconds
  else do
    Timestamp.new (← dateTimePlusDuration (← rhs.checkedNeg) (properties t))

end Datatypes.DateTime
