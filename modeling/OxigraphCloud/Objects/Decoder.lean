import OxigraphCloud.Objects.EncodedTerm

namespace Rdf

namespace BlankNode

-- One more digit of a hexadecimal number. There is no result if it gets too large.
def checkedPush (value : BitVec 128) (digit : UInt8) : Option (BitVec 128) := do
  let digit ←
    if 48 ≤ digit ∧ digit ≤ 57 then some (digit.toNat - 48)
    else if 97 ≤ digit ∧ digit ≤ 102 then some (digit.toNat - 97 + 10)
    else none
  if value.toNat * 16 + digit < 2 ^ 128 then
    return .ofNat 128 (value.toNat * 16 + digit)
  else
    none

-- An empty string or a leading zero is not a number.
def toIntegerId (id : String) : Option (BitVec 128) :=
  let digits := SmallString.strBytes id
  match digits.head? with
  | none | some 48 => none
  | some _         => digits.foldlM checkedPush 0

def newUnchecked (id : String) : BlankNode :=
  match toIntegerId id with
  | some numericalId => .anonymous numericalId
  | none             => .named id

end BlankNode

def Literal.newTypedLiteral (value : String) (datatype : NamedNode) : Literal :=
  if datatype = "http://www.w3.org/2001/XMLSchema#string" then
    .string value
  else
    .typedLiteral value datatype

end Rdf

def SmallString.asStr (s : SmallString) : String := .fromUTF8 ⟨s.asBytes.toArray⟩ s.utf8

-- What term decoding takes from other crates: the lexical forms of the `xsd` types that are stored
-- by value.
structure Printer where
  printBoolean           : Bool → String
  printFloat             : BitVec 32 → String
  printDouble            : BitVec 64 → String
  printInteger           : BitVec 64 → String
  printDecimal           : BitVec 128 → String
  printDateTime          : Timestamp → String
  printTime              : Timestamp → String
  printDate              : Timestamp → String
  printGYearMonth        : Timestamp → String
  printGYear             : Timestamp → String
  printGMonthDay         : Timestamp → String
  printGDay              : Timestamp → String
  printGMonth            : Timestamp → String
  printDuration          : Duration → String
  printYearMonthDuration : BitVec 64 → String
  printDayTimeDuration   : BitVec 128 → String

-- For concrete runs in which no such value is printed.
def Printer.plain : Printer where
  printBoolean _           := ""
  printFloat _             := ""
  printDouble _            := ""
  printInteger _           := ""
  printDecimal _           := ""
  printDateTime _          := ""
  printTime _              := ""
  printDate _              := ""
  printGYearMonth _        := ""
  printGYear _             := ""
  printGMonthDay _         := ""
  printGDay _              := ""
  printGMonth _            := ""
  printDuration _          := ""
  printYearMonthDuration _ := ""
  printDayTimeDuration _   := ""

-- `get_str`
abbrev StrLookup := StrHash → Except StorageError (Option String)

-- `{id:?}`
def StrHash.debug (id : StrHash) : String :=
  "StrHash \x7b hash: " ++ toString (id.toBeBytes.map UInt8.toNat) ++ " \x7d"

namespace StrLookup

open Rdf

variable (lookup : StrLookup) (print : Printer)

def getRequiredStr (id : StrHash) : Except StorageError String := do
  match ← lookup id with
  | some str => return str
  | none     => throw <| .corruption <| .msg <|
    "Not able to find the string with id " ++ id.debug ++ " in the string store"

def toNamedOrBlankNode : Term → Except StorageError NamedOrBlankNode
  | .namedNode node => return .namedNode node
  | .blankNode node => return .blankNode node
  | .literal _      => throw <| .corruption <| .msg
    "A literal has been found instead of a named or blank node"
  | .triple ..      => throw <| .corruption <| .msg
    "A triple has been found instead of a named or blank node"

def toNamedNode : Term → Except StorageError NamedNode
  | .namedNode node => return node
  | .blankNode _    => throw <| .corruption <| .msg
    "A blank node has been found instead of a named node"
  | .literal _      =>
    throw <| .corruption <| .msg "A literal has been found instead of a named node"
  | .triple ..      =>
    throw <| .corruption <| .msg "A triple has been found instead of a named node"

def decodeTerm : EncodedTerm → Except StorageError Term
  | .defaultGraph => throw <| .corruption <| .msg "The default graph tag is not a valid term"
  | .namedNode iriId => return .namedNode (← lookup.getRequiredStr iriId)
  | .numericalBlankNode id => return .blankNode (.anonymous (Bytes.toBitVec 16 id.toList))
  | .smallBlankNode id => return .blankNode (.newUnchecked id.asStr)
  | .bigBlankNode idId => return .blankNode (.newUnchecked (← lookup.getRequiredStr idId))
  | .smallStringLiteral value =>
    return .literal <| .string value.asStr
  | .bigStringLiteral valueId =>
    return .literal <| .string (← lookup.getRequiredStr valueId)
  | .smallSmallLangStringLiteral value language =>
    return .literal <| .languageTaggedString value.asStr language.asStr
  | .smallBigLangStringLiteral value languageId =>
    return .literal <| .languageTaggedString value.asStr (← lookup.getRequiredStr languageId)
  | .bigSmallLangStringLiteral valueId language =>
    return .literal <| .languageTaggedString (← lookup.getRequiredStr valueId) language.asStr
  | .bigBigLangStringLiteral valueId languageId =>
    return .literal <| .languageTaggedString (← lookup.getRequiredStr valueId)
      (← lookup.getRequiredStr languageId)
  | .ltrSmallSmallDirLangStringLiteral value language =>
    return .literal <| .directionalLanguageTaggedString value.asStr language.asStr .ltr
  | .ltrSmallBigDirLangStringLiteral value languageId =>
    return .literal <| .directionalLanguageTaggedString value.asStr
      (← lookup.getRequiredStr languageId) .ltr
  | .ltrBigSmallDirLangStringLiteral valueId language =>
    return .literal <| .directionalLanguageTaggedString
      (← lookup.getRequiredStr valueId) language.asStr .ltr
  | .ltrBigBigDirLangStringLiteral valueId languageId =>
    return .literal <| .directionalLanguageTaggedString (← lookup.getRequiredStr valueId)
      (← lookup.getRequiredStr languageId) .ltr
  | .rtlSmallSmallDirLangStringLiteral value language =>
    return .literal <| .directionalLanguageTaggedString value.asStr language.asStr .rtl
  | .rtlSmallBigDirLangStringLiteral value languageId =>
    return .literal <| .directionalLanguageTaggedString value.asStr
      (← lookup.getRequiredStr languageId) .rtl
  | .rtlBigSmallDirLangStringLiteral valueId language =>
    return .literal <| .directionalLanguageTaggedString
      (← lookup.getRequiredStr valueId) language.asStr .rtl
  | .rtlBigBigDirLangStringLiteral valueId languageId =>
    return .literal <| .directionalLanguageTaggedString (← lookup.getRequiredStr valueId)
      (← lookup.getRequiredStr languageId) .rtl
  | .smallTypedLiteral value datatypeId =>
    return .literal <| .newTypedLiteral value.asStr (← lookup.getRequiredStr datatypeId)
  | .bigTypedLiteral valueId datatypeId =>
    return .literal <| .newTypedLiteral (← lookup.getRequiredStr valueId)
      (← lookup.getRequiredStr datatypeId)
  | .booleanLiteral value =>
    return .literal <| .typedLiteral (print.printBoolean value)
      "http://www.w3.org/2001/XMLSchema#boolean"
  | .floatLiteral value =>
    return .literal <| .typedLiteral (print.printFloat value)
      "http://www.w3.org/2001/XMLSchema#float"
  | .doubleLiteral value =>
    return .literal <| .typedLiteral (print.printDouble value)
      "http://www.w3.org/2001/XMLSchema#double"
  | .integerLiteral value =>
    return .literal <| .typedLiteral (print.printInteger value)
      "http://www.w3.org/2001/XMLSchema#integer"
  | .decimalLiteral value =>
    return .literal <| .typedLiteral (print.printDecimal value)
      "http://www.w3.org/2001/XMLSchema#decimal"
  | .dateTimeLiteral value =>
    return .literal <| .typedLiteral (print.printDateTime value)
      "http://www.w3.org/2001/XMLSchema#dateTime"
  | .timeLiteral value =>
    return .literal <| .typedLiteral (print.printTime value)
      "http://www.w3.org/2001/XMLSchema#time"
  | .dateLiteral value =>
    return .literal <| .typedLiteral (print.printDate value)
      "http://www.w3.org/2001/XMLSchema#date"
  | .gYearMonthLiteral value =>
    return .literal <| .typedLiteral (print.printGYearMonth value)
      "http://www.w3.org/2001/XMLSchema#gYearMonth"
  | .gYearLiteral value =>
    return .literal <| .typedLiteral (print.printGYear value)
      "http://www.w3.org/2001/XMLSchema#gYear"
  | .gMonthDayLiteral value =>
    return .literal <| .typedLiteral (print.printGMonthDay value)
      "http://www.w3.org/2001/XMLSchema#gMonthDay"
  | .gDayLiteral value =>
    return .literal <| .typedLiteral (print.printGDay value)
      "http://www.w3.org/2001/XMLSchema#gDay"
  | .gMonthLiteral value =>
    return .literal <| .typedLiteral (print.printGMonth value)
      "http://www.w3.org/2001/XMLSchema#gMonth"
  | .durationLiteral value =>
    return .literal <| .typedLiteral (print.printDuration value)
      "http://www.w3.org/2001/XMLSchema#duration"
  | .yearMonthDurationLiteral value =>
    return .literal <| .typedLiteral (print.printYearMonthDuration value)
      "http://www.w3.org/2001/XMLSchema#yearMonthDuration"
  | .dayTimeDurationLiteral value =>
    return .literal <| .typedLiteral (print.printDayTimeDuration value)
      "http://www.w3.org/2001/XMLSchema#dayTimeDuration"
  | .triple subject predicate object => do
    -- `decode_triple`
    let subject ← toNamedOrBlankNode (← decodeTerm subject)
    let predicate ← toNamedNode (← decodeTerm predicate)
    return .triple subject predicate (← decodeTerm object)

def decodeNamedOrBlankNode (encoded : EncodedTerm) : Except StorageError NamedOrBlankNode := do
  toNamedOrBlankNode (← lookup.decodeTerm print encoded)

def decodeNamedNode (encoded : EncodedTerm) : Except StorageError NamedNode := do
  toNamedNode (← lookup.decodeTerm print encoded)

def decodeGraphName (encoded : EncodedTerm) : Except StorageError GraphName := do
  if encoded.isDefaultGraph then
    return .defaultGraph
  else
    match ← lookup.decodeTerm print encoded with
    | .namedNode node => return .namedNode node
    | .blankNode node => return .blankNode node
    | .literal _      => throw <| .corruption <| .msg "A literal is not a valid graph name"
    | .triple ..      => throw <| .corruption <| .msg "A triple is not a valid graph name"

def decodeQuad (encoded : EncodedQuad) : Except StorageError Quad :=
  return {
    subject   := ← lookup.decodeNamedOrBlankNode print encoded.subject
    predicate := ← lookup.decodeNamedNode print encoded.predicate
    object    := ← lookup.decodeTerm print encoded.object
    graphName := ← lookup.decodeGraphName print encoded.graphName }

end StrLookup
