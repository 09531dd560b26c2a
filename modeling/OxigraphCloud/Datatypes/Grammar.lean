import OxigraphCloud.Datatypes.DateTime
import OxigraphCloud.Primitives.Lexical

-- The productions of XSD 1.1 that the parsers of `xsd:dateTime` and `xsd:time` quote, with the
-- values of their words.
namespace Datatypes.Grammar

open Lexical

def number (digits : List ℕ) : ℕ := digits.foldl (10 * · + ·) 0

-- The value of the digits after a dot.
def fraction (digits : List ℕ) : ℚ := digits.foldr (fun d q => (d + q) / 10) 0

def twoDigits (tens ones : Lexical ℕ) : Lexical ℕ := do
  let a ← tens
  let b ← ones
  return 10 * a + b

def yearDigits : Lexical (List ℕ) := (do
  let first ← digit 1 9
  let second ← digit 0 9
  let third ← digit 0 9
  let others ← plus (digit 0 9)
  return first :: second :: third :: others) <|> (do
  char '0'
  let second ← digit 0 9
  let third ← digit 0 9
  let fourth ← digit 0 9
  return [0, second, third, fourth])

-- `yearFrag ::= '-'? (([1-9] digit digit digit+)) | ('0' digit digit digit))`
def yearFrag : Lexical ℤ := do
  let sign ← opt (char '-')
  let digits ← yearDigits
  return if sign.isSome then -number digits else number digits

-- `monthFrag ::= ('0' [1-9]) | ('1' [0-2])`
def monthFrag : Lexical ℕ := twoDigits (digit 0 0) (digit 1 9) <|> twoDigits (digit 1 1) (digit 0 2)

-- `dayFrag ::= ('0' [1-9]) | ([12] digit) | ('3' [01])`
def dayFrag : Lexical ℕ :=
  twoDigits (digit 0 0) (digit 1 9) <|> twoDigits (digit 1 2) (digit 0 9) <|>
    twoDigits (digit 3 3) (digit 0 1)

-- `hourFrag ::= ([01] digit) | ('2' [0-3])`
def hourFrag : Lexical ℕ := twoDigits (digit 0 1) (digit 0 9) <|> twoDigits (digit 2 2) (digit 0 3)

-- `minuteFrag ::= [0-5] digit`
def minuteFrag : Lexical ℕ := twoDigits (digit 0 5) (digit 0 9)

-- `secondFrag ::= ([0-5] digit) ('.' digit+)?`
def secondFrag : Lexical ℚ := do
  let whole ← twoDigits (digit 0 5) (digit 0 9)
  let digits ← opt do
    char '.'
    plus (digit 0 9)
  return whole + fraction (digits.getD [])

-- The time of a day.
structure Clock where
  hour   : ℕ
  minute : ℕ
  second : ℚ

-- `hourFrag ':' minuteFrag ':' secondFrag`
def clockFrag (hourFrag : Lexical ℕ) : Lexical Clock := do
  let hour ← hourFrag
  char ':'
  let minute ← minuteFrag
  char ':'
  let second ← secondFrag
  return { hour, minute, second }

-- `endOfDayFrag ::= '24:00:00' ('.' '0'+)?`
def endOfDayFrag : Lexical Clock := do
  char '2'; char '4'; char ':'; char '0'; char '0'; char ':'; char '0'; char '0'
  let _ ← opt do
    char '.'
    plus (digit 0 0)
  return { hour := 24, minute := 0, second := 0 }

-- A time after 24:00:00 of which either the minute or the second is zero. It is not part of the
-- grammar.
def lateFrag : Lexical Clock := do
  let clock ← clockFrag do
    char '2'; char '4'
    return 24
  require (¬(clock.minute = 0 ↔ clock.second = 0))
  return clock

def offsetMinutes : Lexical ℕ := (do
  let hours ← twoDigits (digit 0 0) (digit 0 9) <|> twoDigits (digit 1 1) (digit 0 3)
  char ':'
  let minutes ← minuteFrag
  return hours * 60 + minutes) <|> (do
  char '1'; char '4'; char ':'; char '0'; char '0'
  return 14 * 60)

-- `timezoneFrag ::= 'Z' | ('+' | '-') (('0' digit | '1' [0-3]) ':' minuteFrag | '14:00')`
def timezoneFrag : Lexical ℤ := (do char 'Z'; return 0) <|> (do
  let sign ← (do char '+'; return 1) <|> (do char '-'; return (-1 : ℤ))
  let minutes ← offsetMinutes
  return sign * minutes)

def IsLeap (year : ℤ) : Prop := 4 ∣ year ∧ (100 ∣ year → 400 ∣ year)

instance instDecidableIsLeap : DecidablePred IsLeap := fun _ => inferInstanceAs (Decidable (_ ∧ _))

-- The last day of a month.
def lastDay (year : ℤ) (month : ℕ) : ℕ :=
  if month = 2 then
    if IsLeap year then 29 else 28
  else
    if month ∈ [4, 6, 9, 11] then 30 else 31

-- A day in the calendar with a time and the offset of its timezone in minutes.
structure Moment extends Clock where
  year           : ℤ
  month          : ℕ
  day            : ℕ
  timezoneOffset : Option ℤ

-- `yearFrag '-' monthFrag '-' dayFrag 'T' … timezoneFrag?` with the constraint on days of months.
def dateTimeRep (timeFrag : Lexical Clock) : Lexical Moment := do
  let year ← yearFrag
  char '-'
  let month ← monthFrag
  char '-'
  let day ← dayFrag
  char 'T'
  let clock ← timeFrag
  let timezoneOffset ← opt timezoneFrag
  require (day ≤ lastDay year month)
  return { clock with year, month, day, timezoneOffset }

-- `… timezoneFrag?`. The day of a time is the last day of 1972.
def timeRep (timeFrag : Lexical Clock) : Lexical Moment := do
  let clock ← timeFrag
  let timezoneOffset ← opt timezoneFrag
  return { clock with year := 1972, month := 12, day := 31, timezoneOffset }

-- `dateTimeLexicalRep ::= yearFrag '-' monthFrag '-' dayFrag 'T'
--    ((hourFrag ':' minuteFrag ':' secondFrag) | endOfDayFrag) timezoneFrag?`
def dateTimeLexicalRep : Lexical Moment := dateTimeRep (clockFrag hourFrag <|> endOfDayFrag)

-- `timeLexicalRep ::= ((hourFrag ':' minuteFrag ':' secondFrag) | endOfDayFrag) timezoneFrag?`
def timeLexicalRep : Lexical Moment := timeRep (clockFrag hourFrag <|> endOfDayFrag)

end Datatypes.Grammar
