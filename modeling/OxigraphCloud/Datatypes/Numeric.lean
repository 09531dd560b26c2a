import OxigraphCloud.Primitives.Digits

-- The lexical forms of `xsd:boolean`, `xsd:integer` and `xsd:decimal`. Since the errors of the
-- parsers are dropped by term encoding, a parser gives no result instead of an error.
namespace Datatypes

def splitSign : List Char → ℤ × List Char
  | '+' :: input => (1, input)
  | '-' :: input => (-1, input)
  | input        => (1, input)

def printSign (value : ℤ) : List Char := if value < 0 then ['-'] else []

namespace Boolean

def fromStr : List Char → Option Bool
  | ['t', 'r', 'u', 'e'] | ['1']      => some true
  | ['f', 'a', 'l', 's', 'e'] | ['0'] => some false
  | _                                 => none

def display : Bool → List Char
  | true  => ['t', 'r', 'u', 'e']
  | false => ['f', 'a', 'l', 's', 'e']

end Boolean

namespace Integer

-- `from_str` of the signed integers of `w` bits.
def fromStr (w : ℕ) (input : List Char) : Option ℤ :=
  let (sign, digits) := splitSign input
  if digits ≠ [] ∧ digits.all Char.isDigit then readDigits w sign 0 digits else none

def display (value : ℤ) : List Char := printSign value ++ Nat.toDigits 10 value.natAbs

end Integer

-- A decimal is kept as its multiple of `10 ^ -18`, which fits into 128 bits.
namespace Decimal

def decimalPartDigits : ℕ := 18

def decimalPartPow : ℤ := 10 ^ 18

def checked (value : ℤ) : Option ℤ := value.checked 128

def checkedAdd (left right : ℤ) : Option ℤ := checked (left + right)

def checkedSub (left right : ℤ) : Option ℤ := checked (left - right)

def checkedNeg (value : ℤ) : Option ℤ := checked (-value)

-- `TryFrom<i128>`
def tryFrom (value : ℤ) : Option ℤ := checked (value * decimalPartPow)

def asI128 (value : ℤ) : ℤ := value.tdiv decimalPartPow

-- Removes the zeros at the end of a number and counts them. A number of 128 bits has at most 38.
def shiftRight (value : ℤ) : (fuel : ℕ) → ℤ × ℕ
  | 0        => (value, 0)
  | fuel + 1 =>
    if value ≠ 0 ∧ value.tmod 10 = 0 then
      let (value, shift) := shiftRight (value.tdiv 10) fuel
      (value, shift + 1)
    else
      (value, 0)

def checkedMul (left right : ℤ) : Option ℤ := do
  let (left, shiftLeft) := shiftRight left 39
  let (right, shiftRight) := shiftRight right 39
  if shiftLeft + shiftRight < decimalPartDigits then
    none
  else
    let product ← checked (left * right)
    checked (product * (← checked (10 ^ (shiftLeft + shiftRight - decimalPartDigits))))

-- Multiplies a number by ten as long as it fits into 128 bits, which ends after at most 38 steps.
def shiftLeft (value : ℤ) : (fuel : ℕ) → ℤ × ℕ
  | 0        => (value, 0)
  | fuel + 1 =>
    if value ≠ 0 ∧ checked (value * 10) = some (value * 10) then
      let (value, shift) := shiftLeft (value * 10) fuel
      (value, shift + 1)
    else
      (value, 0)

-- `i128::checked_div`
def checkedQuotient (left right : ℤ) : Option ℤ :=
  if right = 0 then none else checked (left.tdiv right)

def checkedDiv (left right : ℤ) : Option ℤ := do
  let (left, shiftLeft) := shiftLeft left 39
  let (right, shiftRight) := shiftRight right 39
  if shiftLeft + shiftRight < decimalPartDigits then
    none
  else
    let quotient ← checkedQuotient left right
    checkedQuotient quotient (← checked (10 ^ (shiftLeft + shiftRight - decimalPartDigits)))

def decimalPartPowMinusOne : ℤ := 10 ^ 17

def checkedRound (value : ℤ) : Option ℤ :=
  let value := value.tdiv decimalPartPowMinusOne
  let rounded :=
    if 0 ≤ value then
      value.tdiv 10 + (decide (5 ≤ value.tmod 10)).toInt
    else
      value.tdiv 10 - (decide (5 < (-value).tmod 10)).toInt
  checked (rounded * decimalPartPow)

def checkedCeil (value : ℤ) : Option ℤ :=
  let rounded :=
    if 0 < value ∧ value.tmod decimalPartPow ≠ 0 then
      value.tdiv decimalPartPow + 1
    else
      value.tdiv decimalPartPow
  checked (rounded * decimalPartPow)

def checkedFloor (value : ℤ) : Option ℤ :=
  let rounded :=
    if 0 ≤ value ∨ value.tmod decimalPartPow = 0 then
      value.tdiv decimalPartPow
    else
      value.tdiv decimalPartPow - 1
  checked (rounded * decimalPartPow)

-- The digits after the dot. Each of them divides the unit of the number by ten.
def readFraction (sign value : ℤ) (digits : List Char) : Option ℤ := do
  if digits.all Char.isDigit then
    let value ← readDigits 128 sign value digits
    let exp := digits.foldl (fun exp _ => exp / 10) decimalPartPow
    if exp = 0 then none else checked (value * exp)
  else
    none

def fromStr (input : List Char) : Option ℤ := do
  let (sign, input) := splitSign input
  let (whole, input) := input.span Char.isDigit
  let value ← readDigits 128 sign 0 whole
  match input with
  | []                => if whole = [] then none else checked (value * decimalPartPow)
  | '.' :: fraction =>
    if fraction = [] ∧ whole = [] then
      none
    else
      -- Zeros at the end are dropped to avoid underflows.
      readFraction sign value (fraction.rdropWhile (· = '0'))
  | _                 => none

-- The digits that are written into the buffer of the source start with the last one.
def display (value : ℤ) : List Char :=
  if value = 0 then
    ['0']
  else
    let digits := Nat.toDigits 10 value.natAbs |>.reverse
    let firstNonZero := digits.findIdx (· ≠ '0')
    let whole :=
      if decimalPartDigits < digits.length then
        digits.drop decimalPartDigits |>.reverse
      else
        ['0']
    let fraction :=
      if firstNonZero < decimalPartDigits then
        '.' :: ((digits.rightpad decimalPartDigits '0').take decimalPartDigits
          |>.drop firstNonZero |>.reverse)
      else
        []
    printSign value ++ whole ++ fraction

end Decimal

end Datatypes
