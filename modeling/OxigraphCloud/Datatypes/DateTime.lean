import OxigraphCloud.Datatypes.Numeric
import OxigraphCloud.Objects.Values

-- The lexical forms of the `xsd` types of dates and times.
namespace Datatypes

-- A parser for the start of the input.
abbrev Frag := StateT (List Char) Option

def expectChar (constant : Char) : Frag Unit
  | []         => none
  | c :: input => if c = constant then some ((), input) else none

-- Whether the input starts with the character, which is then consumed.
def stripChar (constant : Char) : Frag Bool
  | []         => some (false, [])
  | c :: input => some (if c = constant then (true, input) else (false, c :: input))

def integerPrefix : Frag (List Char) := fun input => some (input.span Char.isDigit)

def splitDecimal (dotSeen : Bool) : List Char → List Char × List Char
  | []         => ([], [])
  | c :: input =>
    if c.isDigit then
      let (number, input) := splitDecimal dotSeen input
      (c :: number, input)
    else if c = '.' ∧ !dotSeen then
      let (number, input) := splitDecimal true input
      (c :: number, input)
    else
      ([], c :: input)

def decimalPrefix : Frag (List Char) := fun input => some (splitDecimal false input)

def optionalEnd (parse : Frag α) : Frag (Option α) := fun input =>
  if input = [] then some (none, []) else (some <$> parse) input

def ensureComplete (parse : Frag α) (input : List Char) : Option α := do
  let (result, left) ← parse input
  if left = [] then some result else none

def daysInMonth (y : Option ℤ) (m : ℕ) : ℕ :=
  match m with
  | 2 =>
    match y with
    | some y => if y % 4 ≠ 0 ∨ (y % 100 = 0 ∧ y % 400 ≠ 0) then 28 else 29
    | none   => 28
  | 4 | 6 | 9 | 11 => 30
  | _ => 31

structure DateTimeSevenPropertyModel where
  year           : Option ℤ := none
  month          : Option ℕ := none
  day            : Option ℕ := none
  hour           : Option ℕ := none
  minute         : Option ℕ := none
  second         : Option ℤ := none
  timezoneOffset : Option ℤ

-- The days since the start of the year 1, for a number of years, a month and a number of days that
-- lie before.
def daysOnTimeline (yr : ℤ) (mo da : ℕ) : ℤ :=
  365 * yr + (yr / 400 - yr / 100 + yr / 4) +
    ((List.range' 1 (mo - 1)).map fun m => (daysInMonth (some (yr + 1)) m : ℤ)).sum + da

def timeOnTimeline (props : DateTimeSevenPropertyModel) : Option ℤ := do
  let yr := props.year.elim 1971 (· - 1)
  let mo := props.month.getD 12
  let da := props.day.elim (daysInMonth (some (yr + 1)) mo - 1) (· - 1)
  let hr := props.hour.getD 0
  let mi := props.minute.getD 0 - props.timezoneOffset.getD 0
  let se := props.second.getD 0
  let minutes ← Decimal.tryFrom (86400 * daysOnTimeline yr mo da + 3600 * hr + 60 * mi)
  Decimal.checkedAdd minutes se

-- The first month that does not end before the given day of the year, and the day in it.
def findMonth (year : ℤ) : List ℕ → ℤ → ℕ × ℤ
  | [], days                => (0, days)
  | month :: months, days =>
    if days < daysInMonth (some year) month then
      (month, days)
    else
      findMonth year months (days - daysInMonth (some year) month)

-- The year for a number of days since the start of the year 1, and the days in it that lie before.
def splitYear (days : ℤ) : ℤ × ℤ :=
  let days := days + 366
  -- Makes the number of days positive.
  let shift := if days < 0 then days.tdiv 146097 - 1 else 0
  let days := days - shift * 146097
  let yearMul400 := days.tdiv 146097
  let days := days - yearMul400 * 146097
  let days := days - 1
  let yearMul100 := days.tdiv 36524
  let days := days - yearMul100 * 36524
  let days := days + 1
  let yearMul4 := days.tdiv 1461
  let days := days - yearMul4 * 1461
  let days := days - 1
  let yearMod4 := days.tdiv 365
  let days := days - yearMod4 * 365
  let year := 400 * yearMul400 + 100 * yearMul100 + 4 * yearMul4 + yearMod4 + shift * 400
  let isLeapYear := (yearMul100 = 0 ∨ yearMul4 ≠ 0) ∧ yearMod4 = 0
  (year, if isLeapYear then days + 1 else days)

def yearMonthDay (days : ℤ) : ℤ × ℕ × ℕ :=
  let (year, days) := splitYear days
  let (month, days) := findMonth year (List.range' 1 12) days
  (year, month, days.toNat + 1)

end Datatypes

open Datatypes

namespace Timestamp

def new (props : DateTimeSevenPropertyModel) : Option Timestamp := do
  return {
    value          := .ofInt 128 (← timeOnTimeline props)
    timezoneOffset := props.timezoneOffset.map (.ofInt 16) }

-- The timezone offset in minutes.
def offset (t : Timestamp) : ℤ := (t.timezoneOffset.getD 0).toInt

-- The whole seconds on the timeline of the timezone.
def localSeconds (t : Timestamp) : ℤ := Decimal.asI128 t.value.toInt + t.offset * 60

def yearMonthDay (t : Timestamp) : ℤ × ℕ × ℕ := Datatypes.yearMonthDay (t.localSeconds / 86400)

def year (t : Timestamp) : ℤ := t.yearMonthDay.1

def month (t : Timestamp) : ℕ := t.yearMonthDay.2.1

def day (t : Timestamp) : ℕ := t.yearMonthDay.2.2

def hour (t : Timestamp) : ℕ := (t.localSeconds % 86400 / 3600).toNat

def minute (t : Timestamp) : ℕ := (t.localSeconds % 3600 / 60).toNat

def second (t : Timestamp) : ℤ := |t.value.toInt % (60 * Decimal.decimalPartPow)|

end Timestamp

namespace Datatypes

-- Two digits for a number between the bounds.
def twoDigitFrag (lower upper : ℕ) : Frag ℕ := do
  let digits ← integerPrefix
  guard (digits.length = 2)
  let number := Nat.ofDigitChars 10 digits 0
  guard (lower ≤ number ∧ number ≤ upper)
  return number

def monthFrag : Frag ℕ := twoDigitFrag 1 12

def dayFrag : Frag ℕ := twoDigitFrag 1 31

-- The hour 24 is allowed here.
def hourFrag : Frag ℕ := twoDigitFrag 0 24

def minuteFrag : Frag ℕ := twoDigitFrag 0 59

def yearFrag : Frag ℤ := do
  let negative ← stripChar '-'
  let digits ← integerPrefix
  guard (4 ≤ digits.length)
  guard (¬(4 < digits.length ∧ digits.head? = some '0'))
  let number ← liftM (Integer.fromStr 64 digits)
  return if negative then -number else number

def secondFrag : Frag ℤ := do
  let digits ← decimalPrefix
  guard ((digits.takeWhile (· ≠ '.')).length = 2)
  let number ← liftM (Decimal.fromStr digits)
  guard (0 ≤ number ∧ number < 60 * Decimal.decimalPartPow)
  guard (digits.getLast? ≠ some '.')
  return number

namespace TimezoneOffset

def new (offsetInMinutes : ℤ) : Option ℤ :=
  if -14 * 60 ≤ offsetInMinutes ∧ offsetInMinutes ≤ 14 * 60 then some offsetInMinutes else none

def display (offset : ℤ) : List Char :=
  if offset = 0 then
    ['Z']
  else
    (if offset < 0 then '-' else '+') ::
      Nat.padded 2 (offset.natAbs / 60) ++ ':' :: Nat.padded 2 (offset.natAbs % 60)

end TimezoneOffset

-- Whether there is a minus sign. A plus sign may be missing.
def signFrag : Frag Bool := do
  if ← stripChar '-' then
    return true
  else
    let _ ← stripChar '+'
    return false

def timezoneFrag : Frag ℤ := do
  if ← stripChar 'Z' then
    return 0
  else
    let negative ← signFrag
    let digits ← integerPrefix
    guard (digits.length = 2)
    let hours := Nat.ofDigitChars 10 digits 0
    expectChar ':'
    let minutes ← minuteFrag
    guard (¬(13 < hours ∧ ¬(hours = 14 ∧ minutes = 0)))
    let offset : ℤ := hours * 60 + minutes
    liftM (TimezoneOffset.new (if negative then -offset else offset))

def validateDayOfMonth (year : Option ℤ) (month day : ℕ) : Frag Unit :=
  guard (day ≤ daysInMonth year month)

-- `hourFrag ':' minuteFrag ':' secondFrag`
def timeFrag : Frag (ℕ × ℕ × ℤ) := do
  let hour ← hourFrag
  expectChar ':'
  let minute ← minuteFrag
  expectChar ':'
  let second ← secondFrag
  -- This is meant to only leave 24:00:00.
  guard (¬(hour = 24 ∧ minute ≠ 0 ∧ second ≠ 0))
  return (hour, minute, second)

def dateTimeLexicalRep : Frag Timestamp := do
  let year ← yearFrag
  expectChar '-'
  let month ← monthFrag
  expectChar '-'
  let day ← dayFrag
  expectChar 'T'
  let (hour, minute, second) ← timeFrag
  let timezoneOffset ← optionalEnd timezoneFrag
  validateDayOfMonth year month day
  liftM <| Timestamp.new { year, month, day, hour, minute, second, timezoneOffset }

def timeLexicalRep : Frag Timestamp := do
  let (hour, minute, second) ← timeFrag
  let timezoneOffset ← optionalEnd timezoneFrag
  -- `Time::new`
  let hour := if hour = 24 ∧ minute = 0 ∧ second = 0 then 0 else hour
  liftM <| Timestamp.new { hour, minute, second, timezoneOffset }

def displayYear (t : Timestamp) : List Char := printSign t.year ++ Nat.padded 4 t.year.natAbs

def displayTime (t : Timestamp) : List Char :=
  let leadingZero :=
    if -10 * Decimal.decimalPartPow < t.second ∧ t.second < 10 * Decimal.decimalPartPow then
      ['0']
    else
      []
  Nat.padded 2 t.hour ++ ':' :: Nat.padded 2 t.minute ++ ':' :: leadingZero ++
    Decimal.display t.second

def displayTimezone (t : Timestamp) : List Char :=
  t.timezoneOffset.elim [] (TimezoneOffset.display ·.toInt)

namespace DateTime

def new (year : ℤ) (month day hour minute : ℕ) (second : ℤ) (timezoneOffset : Option ℤ) :
    Option Timestamp :=
  Timestamp.new { year, month, day, hour, minute, second, timezoneOffset }

def fromStr : List Char → Option Timestamp := ensureComplete dateTimeLexicalRep

def display (t : Timestamp) : List Char :=
  displayYear t ++ '-' :: Nat.padded 2 t.month ++ '-' :: Nat.padded 2 t.day ++
    'T' :: displayTime t ++ displayTimezone t

end DateTime

namespace Time

def fromStr : List Char → Option Timestamp := ensureComplete timeLexicalRep

end Time

end Datatypes
