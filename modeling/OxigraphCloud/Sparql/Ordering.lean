import OxigraphCloud.Datatypes.Duration
import OxigraphCloud.Sparql.ExpressionTerm

-- The order of terms in `ORDER BY`, `MIN` and `MAX`.
open Rdf Datatypes

-- What comparisons take from the numeric types of the machine.
structure ValueOps where
  floatOfInteger  : BitVec 64 → BitVec 32
  doubleOfInteger : BitVec 64 → BitVec 64
  floatOfDecimal  : BitVec 128 → BitVec 32
  doubleOfDecimal : BitVec 128 → BitVec 64
  doubleOfFloat   : BitVec 32 → BitVec 64

-- For concrete runs without these types.
def ValueOps.plain : ValueOps where
  floatOfInteger _  := 0
  doubleOfInteger _ := 0
  floatOfDecimal _  := 0
  doubleOfDecimal _ := 0
  doubleOfFloat _   := 0

-- Floating point numbers are ordered like integers with a sign and the other bits as magnitude.
namespace Datatypes.Float

def key (value : BitVec 32) : Option ℤ :=
  let magnitude : ℕ := value.toNat % 2 ^ 31
  if 0x7F800000 < magnitude then none
  else some (if value.msb then -(magnitude : ℤ) else magnitude)

def partialCmp (a b : BitVec 32) : Option Ordering := return compare (← key a) (← key b)

end Datatypes.Float

namespace Datatypes.Double

def key (value : BitVec 64) : Option ℤ :=
  let magnitude : ℕ := value.toNat % 2 ^ 63
  if 0x7FF0000000000000 < magnitude then none
  else some (if value.msb then -(magnitude : ℤ) else magnitude)

def partialCmp (a b : BitVec 64) : Option Ordering := return compare (← key a) (← key b)

end Datatypes.Double

def Datatypes.Decimal.ofInteger (value : BitVec 64) : ℤ := value.toInt * Decimal.decimalPartPow

namespace Timestamp

-- Fourteen hours, the largest offset of a timezone.
def maxOffset : ℤ := 14 * 3600 * Decimal.decimalPartPow

def partialCmp (a b : Timestamp) : Option Ordering :=
  match a.timezoneOffset, b.timezoneOffset with
  | some _, some _ | none, none => some (compare a.value.toInt b.value.toInt)
  | some _, none => do
    let plusResult := compare a.value.toInt (← Decimal.checkedAdd b.value.toInt maxOffset)
    let minusResult := compare a.value.toInt (← Decimal.checkedSub b.value.toInt maxOffset)
    if plusResult = minusResult then some plusResult else none
  | none, some _ => do
    let plusResult := compare (← Decimal.checkedAdd a.value.toInt maxOffset) b.value.toInt
    let minusResult := compare (← Decimal.checkedSub a.value.toInt maxOffset) b.value.toInt
    if plusResult = minusResult then some plusResult else none

end Timestamp

namespace Duration

-- The order of the points that are reached from the start of a month.
def compareFrom (year : ℤ) (month : ℕ) (a b : Duration) : Option (Option Ordering) := do
  let first ← Timestamp.new
    { year := some year, month := some month, day := some 1, hour := some 0, minute := some 0,
      second := some 0, timezoneOffset := none }
  return (← DateTime.checkedAddDuration first a).partialCmp
    (← DateTime.checkedAddDuration first b)

def partialCmp (a b : Duration) : Option Ordering := do
  let firstResult ← compareFrom 1969 9 a b
  let secondResult ← compareFrom 1697 2 a b
  let thirdResult ← compareFrom 1903 3 a b
  let fourthResult ← compareFrom 1903 7 a b
  if firstResult = secondResult ∧ secondResult = thirdResult ∧ thirdResult = fourthResult then
    firstResult
  else
    none

def ofYearMonth (months : BitVec 64) : Duration := ⟨months, 0⟩

def ofDayTime (seconds : BitVec 128) : Duration := ⟨0, seconds⟩

end Duration

namespace ExpressionTerm

variable (ops : ValueOps) (print : Printer)

def partialCmpLiterals (a b : ExpressionTerm) : Option Ordering :=
  match a with
  | stringLiteral a =>
    match b with
    | stringLiteral b => some (compare a b)
    | _               => none
  | langStringLiteral va la =>
    match b with
    | langStringLiteral vb lb => if la = lb then some (compare va vb) else none
    | _                       => none
  | dirLangStringLiteral va la da =>
    match b with
    | dirLangStringLiteral vb lb db => if la = lb ∧ da = db then some (compare va vb) else none
    | _                             => none
  | floatLiteral a =>
    match b with
    | floatLiteral b   => Float.partialCmp a b
    | doubleLiteral b  => Double.partialCmp (ops.doubleOfFloat a) b
    | integerLiteral b => Float.partialCmp a (ops.floatOfInteger b)
    | decimalLiteral b => Float.partialCmp a (ops.floatOfDecimal b)
    | _                => none
  | doubleLiteral a =>
    match b with
    | floatLiteral b   => Double.partialCmp a (ops.doubleOfFloat b)
    | doubleLiteral b  => Double.partialCmp a b
    | integerLiteral b => Double.partialCmp a (ops.doubleOfInteger b)
    | decimalLiteral b => Double.partialCmp a (ops.doubleOfDecimal b)
    | _                => none
  | integerLiteral a =>
    match b with
    | floatLiteral b   => Float.partialCmp (ops.floatOfInteger a) b
    | doubleLiteral b  => Double.partialCmp (ops.doubleOfInteger a) b
    | integerLiteral b => some (compare a.toInt b.toInt)
    | decimalLiteral b => some (compare (Decimal.ofInteger a) b.toInt)
    | _                => none
  | decimalLiteral a =>
    match b with
    | floatLiteral b   => Float.partialCmp (ops.floatOfDecimal a) b
    | doubleLiteral b  => Double.partialCmp (ops.doubleOfDecimal a) b
    | integerLiteral b => some (compare a.toInt (Decimal.ofInteger b))
    | decimalLiteral b => some (compare a.toInt b.toInt)
    | _                => none
  | dateTimeLiteral a =>
    match b with
    | dateTimeLiteral b => a.partialCmp b
    | _                 => none
  | timeLiteral a =>
    match b with
    | timeLiteral b => a.partialCmp b
    | _             => none
  | dateLiteral a =>
    match b with
    | dateLiteral b => a.partialCmp b
    | _             => none
  | gYearMonthLiteral a =>
    match b with
    | gYearMonthLiteral b => a.partialCmp b
    | _                   => none
  | gYearLiteral a =>
    match b with
    | gYearLiteral b => a.partialCmp b
    | _              => none
  | gMonthDayLiteral a =>
    match b with
    | gMonthDayLiteral b => a.partialCmp b
    | _                  => none
  | gDayLiteral a =>
    match b with
    | gDayLiteral b => a.partialCmp b
    | _             => none
  | gMonthLiteral a =>
    match b with
    | gMonthLiteral b => a.partialCmp b
    | _               => none
  | durationLiteral a =>
    match b with
    | durationLiteral b          => a.partialCmp b
    | yearMonthDurationLiteral b => a.partialCmp (.ofYearMonth b)
    | dayTimeDurationLiteral b   => a.partialCmp (.ofDayTime b)
    | _                          => none
  | yearMonthDurationLiteral a =>
    match b with
    | durationLiteral b          => (Duration.ofYearMonth a).partialCmp b
    | yearMonthDurationLiteral b => some (compare a.toInt b.toInt)
    | dayTimeDurationLiteral b   => (Duration.ofYearMonth a).partialCmp (.ofDayTime b)
    | _                          => none
  | dayTimeDurationLiteral a =>
    match b with
    | durationLiteral b          => (Duration.ofDayTime a).partialCmp b
    | yearMonthDurationLiteral b => (Duration.ofDayTime a).partialCmp (.ofYearMonth b)
    | dayTimeDurationLiteral b   => some (compare a.toInt b.toInt)
    | _                          => none
  | _ => none

-- `Term::from` for the terms that are literals.
def toLiteral : ExpressionTerm → Option Literal
  | stringLiteral value => some (.string value)
  | langStringLiteral value language => some (.languageTaggedString value language)
  | dirLangStringLiteral value language direction =>
    some (.directionalLanguageTaggedString value language direction)
  | booleanLiteral value => some <| .typedLiteral (print.printBoolean value)
      "http://www.w3.org/2001/XMLSchema#boolean"
  | integerLiteral value => some <| .typedLiteral (print.printInteger value)
      "http://www.w3.org/2001/XMLSchema#integer"
  | decimalLiteral value => some <| .typedLiteral (print.printDecimal value)
      "http://www.w3.org/2001/XMLSchema#decimal"
  | floatLiteral value => some <| .typedLiteral (print.printFloat value)
      "http://www.w3.org/2001/XMLSchema#float"
  | doubleLiteral value => some <| .typedLiteral (print.printDouble value)
      "http://www.w3.org/2001/XMLSchema#double"
  | dateTimeLiteral value => some <| .typedLiteral (print.printDateTime value)
      "http://www.w3.org/2001/XMLSchema#dateTime"
  | dateLiteral value => some <| .typedLiteral (print.printDate value)
      "http://www.w3.org/2001/XMLSchema#date"
  | timeLiteral value => some <| .typedLiteral (print.printTime value)
      "http://www.w3.org/2001/XMLSchema#time"
  | gYearLiteral value => some <| .typedLiteral (print.printGYear value)
      "http://www.w3.org/2001/XMLSchema#gYear"
  | gYearMonthLiteral value => some <| .typedLiteral (print.printGYearMonth value)
      "http://www.w3.org/2001/XMLSchema#gYearMonth"
  | gMonthLiteral value => some <| .typedLiteral (print.printGMonth value)
      "http://www.w3.org/2001/XMLSchema#gMonth"
  | gMonthDayLiteral value => some <| .typedLiteral (print.printGMonthDay value)
      "http://www.w3.org/2001/XMLSchema#gMonthDay"
  | gDayLiteral value => some <| .typedLiteral (print.printGDay value)
      "http://www.w3.org/2001/XMLSchema#gDay"
  | durationLiteral value => some <| .typedLiteral (print.printDuration value)
      "http://www.w3.org/2001/XMLSchema#duration"
  | yearMonthDurationLiteral value => some <| .typedLiteral (print.printYearMonthDuration value)
      "http://www.w3.org/2001/XMLSchema#yearMonthDuration"
  | dayTimeDurationLiteral value => some <| .typedLiteral (print.printDayTimeDuration value)
      "http://www.w3.org/2001/XMLSchema#dayTimeDuration"
  | otherTypedLiteral value datatype => some (.newTypedLiteral value datatype)
  | _ => none

-- `(value, datatype, language)`
def cmpLexical : Literal → Literal → Ordering :=
  compareLex (compareOn Literal.value)
    (compareLex (compareOn Literal.datatype) (compareOn Literal.language))

def cmpLiterals (a b : ExpressionTerm) : Ordering :=
  match partialCmpLiterals ops a b with
  | some ord => ord
  | none     =>
    match a.toLiteral print, b.toLiteral print with
    | some a, some b => cmpLexical a b
    -- "Should never happen"
    | _, _           => .eq

def cmpSubjects : NamedOrBlankNode → NamedOrBlankNode → Ordering
  | .blankNode a, .blankNode b => compare a.asStr b.asStr
  | .blankNode _, .namedNode _ => .lt
  | .namedNode _, .blankNode _ => .gt
  | .namedNode a, .namedNode b => compare a b

-- `cmp_terms` for terms that are bound, together with `cmp_triples`.
def cmp (a b : ExpressionTerm) : Ordering :=
  match a with
  | blankNode a =>
    match b with
    | blankNode b => compare a.asStr b.asStr
    | _           => .lt
  | namedNode a =>
    match b with
    | blankNode _ => .gt
    | namedNode b => compare a b
    | _           => .lt
  | triple s p o =>
    match b with
    | triple s' p' o' => (cmpSubjects s s').then <| (compare p p').then <| cmp o o'
    | _               => .gt
  | a =>
    match b with
    | namedNode _ | blankNode _ => .gt
    | triple ..                 => .lt
    | b                         => cmpLiterals ops print a b

def cmpTerms : Option ExpressionTerm → Option ExpressionTerm → Ordering
  | some a, some b => cmp ops print a b
  | some _, none   => .gt
  | none, some _   => .lt
  | none, none     => .eq

end ExpressionTerm
