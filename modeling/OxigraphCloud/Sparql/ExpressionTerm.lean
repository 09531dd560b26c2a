import OxigraphCloud.Objects.Decoder

-- The terms that expressions work on, and the effective boolean values of terms.
open Rdf

inductive ExpressionTerm
  | namedNode (node : NamedNode)
  | blankNode (node : BlankNode)
  | stringLiteral (value : String)
  | langStringLiteral (value language : String)
  | dirLangStringLiteral (value language : String) (direction : BaseDirection)
  | booleanLiteral (value : Bool)
  | integerLiteral (value : BitVec 64)
  | decimalLiteral (value : BitVec 128)
  | floatLiteral (value : BitVec 32)
  | doubleLiteral (value : BitVec 64)
  | dateTimeLiteral (value : Timestamp)
  | dateLiteral (value : Timestamp)
  | timeLiteral (value : Timestamp)
  | gYearLiteral (value : Timestamp)
  | gYearMonthLiteral (value : Timestamp)
  | gMonthLiteral (value : Timestamp)
  | gMonthDayLiteral (value : Timestamp)
  | gDayLiteral (value : Timestamp)
  | durationLiteral (value : Duration)
  | yearMonthDurationLiteral (value : BitVec 64)
  | dayTimeDurationLiteral (value : BitVec 128)
  | otherTypedLiteral (value : String) (datatype : NamedNode)
  | triple (subject : NamedOrBlankNode) (predicate : NamedNode) (object : ExpressionTerm)
  deriving DecidableEq

-- `Boolean::from`: neither zero nor a number that is none.
namespace Boolean

def ofInteger (value : BitVec 64) : Bool := value != 0

def ofDecimal (value : BitVec 128) : Bool := value != 0

-- Without its sign, zero has no bits, and infinity has the bits of the exponent only.
def ofFloat (value : BitVec 32) : Bool :=
  let magnitude := value.toNat % 2 ^ 31
  magnitude != 0 && magnitude ≤ 0x7F800000

def ofDouble (value : BitVec 64) : Bool :=
  let magnitude := value.toNat % 2 ^ 63
  magnitude != 0 && magnitude ≤ 0x7FF0000000000000

end Boolean

namespace ExpressionTerm

def effectiveBooleanValue : ExpressionTerm → Option Bool
  | booleanLiteral value => some value
  | stringLiteral value  => some !value.isEmpty
  | floatLiteral value   => some (Boolean.ofFloat value)
  | doubleLiteral value  => some (Boolean.ofDouble value)
  | integerLiteral value => some (Boolean.ofInteger value)
  | decimalLiteral value => some (Boolean.ofDecimal value)
  | _                    => none

-- `str::parse` is the same function that terms are encoded with.
def parseTypedLiteral (enc : Encoder) (value datatype : String) : Option ExpressionTerm :=
  match datatype with
  | "http://www.w3.org/2001/XMLSchema#string" => some (stringLiteral value)
  | _ => do
    match ← NativeType.ofDatatype datatype with
    | .boolean           => enc.parseBoolean value |>.map booleanLiteral
    | .float             => enc.parseFloat value |>.map floatLiteral
    | .double            => enc.parseDouble value |>.map doubleLiteral
    | .integer           => enc.parseInteger value |>.map integerLiteral
    | .decimal           => enc.parseDecimal value |>.map decimalLiteral
    | .dateTime          => enc.parseDateTime value |>.map dateTimeLiteral
    | .time              => enc.parseTime value |>.map timeLiteral
    | .date              => enc.parseDate value |>.map dateLiteral
    | .gYearMonth        => enc.parseGYearMonth value |>.map gYearMonthLiteral
    | .gYear             => enc.parseGYear value |>.map gYearLiteral
    | .gMonthDay         => enc.parseGMonthDay value |>.map gMonthDayLiteral
    | .gDay              => enc.parseGDay value |>.map gDayLiteral
    | .gMonth            => enc.parseGMonth value |>.map gMonthLiteral
    | .duration          => enc.parseDuration value |>.map durationLiteral
    | .yearMonthDuration => enc.parseYearMonthDuration value |>.map yearMonthDurationLiteral
    | .dayTimeDuration   => enc.parseDayTimeDuration value |>.map dayTimeDurationLiteral

def ofLiteral (enc : Encoder) : Literal → ExpressionTerm
  | .string value                                              => stringLiteral value
  | .languageTaggedString value language                       => langStringLiteral value language
  | .directionalLanguageTaggedString value language direction =>
    dirLangStringLiteral value language direction
  | .typedLiteral value datatype                               =>
    parseTypedLiteral enc value datatype |>.getD <| otherTypedLiteral value datatype

def ofTerm (enc : Encoder) : Term → ExpressionTerm
  | .namedNode node                  => namedNode node
  | .blankNode node                  => blankNode node
  | .literal literal                 => ofLiteral enc literal
  | .triple subject predicate object => triple subject predicate (ofTerm enc object)

-- `ExpressionTriple::new`
def newTriple : ExpressionTerm → ExpressionTerm → ExpressionTerm → Option ExpressionTerm
  | namedNode s, namedNode p, object => some (triple (.namedNode s) p object)
  | blankNode s, namedNode p, object => some (triple (.blankNode s) p object)
  | _, _, _                          => none

end ExpressionTerm

-- The view of a store that queries are evaluated on.
namespace DatasetView

open ExpressionTerm

variable (enc : Encoder) (print : Printer) (lookup : StrLookup)

def externalizeTerm (term : EncodedTerm) : Except StorageError Term := lookup.decodeTerm print term

def externalizeExpressionTerm : EncodedTerm → Except StorageError ExpressionTerm
  | .defaultGraph => throw <| .corruption <| .msg "Unexpected default graph"
  | .booleanLiteral value => return booleanLiteral value
  | .floatLiteral value => return floatLiteral value
  | .doubleLiteral value => return doubleLiteral value
  | .integerLiteral value => return integerLiteral value
  | .decimalLiteral value => return decimalLiteral value
  | .dateTimeLiteral value => return dateTimeLiteral value
  | .timeLiteral value => return timeLiteral value
  | .dateLiteral value => return dateLiteral value
  | .gYearMonthLiteral value => return gYearMonthLiteral value
  | .gYearLiteral value => return gYearLiteral value
  | .gMonthDayLiteral value => return gMonthDayLiteral value
  | .gDayLiteral value => return gDayLiteral value
  | .gMonthLiteral value => return gMonthLiteral value
  | .durationLiteral value => return durationLiteral value
  | .yearMonthDurationLiteral value => return yearMonthDurationLiteral value
  | .dayTimeDurationLiteral value => return dayTimeDurationLiteral value
  | .triple subject predicate object => do
    let subject ← externalizeExpressionTerm subject
    let predicate ← externalizeExpressionTerm predicate
    let object ← externalizeExpressionTerm object
    match newTriple subject predicate object with
    | some term => return term
    | none      => throw <| .corruption <| .msg "Invalid triple term in the storage"
  | term => return ofTerm enc (← externalizeTerm print lookup term)

def internalTermEffectiveBooleanValue : EncodedTerm → Option Bool
  | .booleanLiteral value     => some value
  | .smallStringLiteral value => some !value.asBytes.isEmpty
  -- "A big literal can't be empty"
  | .bigStringLiteral _       => some false
  | .floatLiteral value       => some (Boolean.ofFloat value)
  | .doubleLiteral value      => some (Boolean.ofDouble value)
  | .integerLiteral value     => some (Boolean.ofInteger value)
  | .decimalLiteral value     => some (Boolean.ofDecimal value)
  | _                         => none

end DatasetView
