import OxigraphCloud.Objects.Rdf
import OxigraphCloud.Objects.Values

inductive EncodedTerm
  | defaultGraph
  | namedNode (iriId : StrHash)
  | numericalBlankNode (id : ByteArr 16)
  | smallBlankNode (id : SmallString)
  | bigBlankNode (idId : StrHash)
  | smallStringLiteral (value : SmallString)
  | bigStringLiteral (valueId : StrHash)
  | smallSmallLangStringLiteral (value language : SmallString)
  | smallBigLangStringLiteral (value : SmallString) (languageId : StrHash)
  | bigSmallLangStringLiteral (valueId : StrHash) (language : SmallString)
  | bigBigLangStringLiteral (valueId languageId : StrHash)
  | ltrSmallSmallDirLangStringLiteral (value language : SmallString)
  | ltrSmallBigDirLangStringLiteral (value : SmallString) (languageId : StrHash)
  | ltrBigSmallDirLangStringLiteral (valueId : StrHash) (language : SmallString)
  | ltrBigBigDirLangStringLiteral (valueId languageId : StrHash)
  | rtlSmallSmallDirLangStringLiteral (value language : SmallString)
  | rtlSmallBigDirLangStringLiteral (value : SmallString) (languageId : StrHash)
  | rtlBigSmallDirLangStringLiteral (valueId : StrHash) (language : SmallString)
  | rtlBigBigDirLangStringLiteral (valueId languageId : StrHash)
  | smallTypedLiteral (value : SmallString) (datatypeId : StrHash)
  | bigTypedLiteral (valueId datatypeId : StrHash)
  | booleanLiteral (value : Bool)
  | floatLiteral (value : BitVec 32)
  | doubleLiteral (value : BitVec 64)
  | integerLiteral (value : BitVec 64)
  | decimalLiteral (value : BitVec 128)
  | dateTimeLiteral (value : Timestamp)
  | timeLiteral (value : Timestamp)
  | dateLiteral (value : Timestamp)
  | gYearMonthLiteral (value : Timestamp)
  | gYearLiteral (value : Timestamp)
  | gMonthDayLiteral (value : Timestamp)
  | gDayLiteral (value : Timestamp)
  | gMonthLiteral (value : Timestamp)
  | durationLiteral (value : Duration)
  | yearMonthDurationLiteral (value : BitVec 64)
  | dayTimeDurationLiteral (value : BitVec 128)
  | triple (subject predicate object : EncodedTerm)
  deriving DecidableEq

namespace EncodedTerm

def isDefaultGraph : EncodedTerm → Bool
  | defaultGraph => true
  | _            => false

-- Small strings are equal if their texts are, all ids and values if they are identical.
def eq : EncodedTerm → EncodedTerm → Bool
  | smallBlankNode a, smallBlankNode b => a.eq b
  | smallStringLiteral a, smallStringLiteral b => a.eq b
  | smallSmallLangStringLiteral v l, smallSmallLangStringLiteral v' l' => v.eq v' && l.eq l'
  | smallBigLangStringLiteral v l, smallBigLangStringLiteral v' l' => v.eq v' && l = l'
  | bigSmallLangStringLiteral v l, bigSmallLangStringLiteral v' l' => v = v' && l.eq l'
  | ltrSmallSmallDirLangStringLiteral v l, ltrSmallSmallDirLangStringLiteral v' l' =>
    v.eq v' && l.eq l'
  | ltrSmallBigDirLangStringLiteral v l, ltrSmallBigDirLangStringLiteral v' l' => v.eq v' && l = l'
  | ltrBigSmallDirLangStringLiteral v l, ltrBigSmallDirLangStringLiteral v' l' => v = v' && l.eq l'
  | rtlSmallSmallDirLangStringLiteral v l, rtlSmallSmallDirLangStringLiteral v' l' =>
    v.eq v' && l.eq l'
  | rtlSmallBigDirLangStringLiteral v l, rtlSmallBigDirLangStringLiteral v' l' => v.eq v' && l = l'
  | rtlBigSmallDirLangStringLiteral v l, rtlBigSmallDirLangStringLiteral v' l' => v = v' && l.eq l'
  | smallTypedLiteral v d, smallTypedLiteral v' d' => v.eq v' && d = d'
  | triple s p o, triple s' p' o' => s.eq s' && p.eq p' && o.eq o'
  | t, t' => t = t'

-- The string ids that occur in a term. Their strings are looked up when the term is decoded.
def strIds : EncodedTerm → List StrHash
  | namedNode id                         => [id]
  | bigBlankNode id                      => [id]
  | bigStringLiteral id                  => [id]
  | smallBigLangStringLiteral _ id       => [id]
  | bigSmallLangStringLiteral id _       => [id]
  | bigBigLangStringLiteral id id'       => [id, id']
  | ltrSmallBigDirLangStringLiteral _ id => [id]
  | ltrBigSmallDirLangStringLiteral id _ => [id]
  | ltrBigBigDirLangStringLiteral id id' => [id, id']
  | rtlSmallBigDirLangStringLiteral _ id => [id]
  | rtlBigSmallDirLangStringLiteral id _ => [id]
  | rtlBigBigDirLangStringLiteral id id' => [id, id']
  | smallTypedLiteral _ id               => [id]
  | bigTypedLiteral id id'               => [id, id']
  | triple s p o                         => s.strIds ++ p.strIds ++ o.strIds
  | _                                    => []

-- The terms that may be stored: the default graph marker neither is one nor occurs in one.
def IsTerm : EncodedTerm → Prop
  | defaultGraph => False
  | triple s p o => s.IsTerm ∧ p.IsTerm ∧ o.IsTerm
  | _            => True

end EncodedTerm

structure EncodedQuad where
  subject   : EncodedTerm
  predicate : EncodedTerm
  object    : EncodedTerm
  graphName : EncodedTerm
  deriving DecidableEq

-- The quads that may be stored.
structure EncodedQuad.IsQuad (quad : EncodedQuad) : Prop where
  subject   : quad.subject.IsTerm
  predicate : quad.predicate.IsTerm
  object    : quad.object.IsTerm
  graphName : quad.graphName ≠ .defaultGraph → quad.graphName.IsTerm

-- What term encoding takes from other crates: the string hash and the parsers of the `xsd` types
-- that are stored by value.
structure Encoder where
  hash                   : String → StrHash
  parseBoolean           : String → Option Bool
  parseFloat             : String → Option (BitVec 32)
  parseDouble            : String → Option (BitVec 64)
  parseInteger           : String → Option (BitVec 64)
  parseDecimal           : String → Option (BitVec 128)
  parseDateTime          : String → Option Timestamp
  parseTime              : String → Option Timestamp
  parseDate              : String → Option Timestamp
  parseGYearMonth        : String → Option Timestamp
  parseGYear             : String → Option Timestamp
  parseGMonthDay         : String → Option Timestamp
  parseGDay              : String → Option Timestamp
  parseGMonth            : String → Option Timestamp
  parseDuration          : String → Option Duration
  parseYearMonthDuration : String → Option (BitVec 64)
  parseDayTimeDuration   : String → Option (BitVec 128)

-- The types whose values are stored instead of their lexical form.
inductive NativeType
  | boolean | float | double | integer | decimal
  | dateTime | time | date | gYearMonth | gYear | gMonthDay | gDay | gMonth
  | duration | yearMonthDuration | dayTimeDuration

namespace NativeType

-- The names are the same where terms are encoded and where they are read by expressions.
def ofDatatype : String → Option NativeType
  | "http://www.w3.org/2001/XMLSchema#boolean" => some .boolean
  | "http://www.w3.org/2001/XMLSchema#float" => some .float
  | "http://www.w3.org/2001/XMLSchema#double" => some .double
  | "http://www.w3.org/2001/XMLSchema#integer"
  | "http://www.w3.org/2001/XMLSchema#byte"
  | "http://www.w3.org/2001/XMLSchema#short"
  | "http://www.w3.org/2001/XMLSchema#int"
  | "http://www.w3.org/2001/XMLSchema#long"
  | "http://www.w3.org/2001/XMLSchema#unsignedByte"
  | "http://www.w3.org/2001/XMLSchema#unsignedShort"
  | "http://www.w3.org/2001/XMLSchema#unsignedInt"
  | "http://www.w3.org/2001/XMLSchema#unsignedLong"
  | "http://www.w3.org/2001/XMLSchema#positiveInteger"
  | "http://www.w3.org/2001/XMLSchema#negativeInteger"
  | "http://www.w3.org/2001/XMLSchema#nonPositiveInteger"
  | "http://www.w3.org/2001/XMLSchema#nonNegativeInteger" => some .integer
  | "http://www.w3.org/2001/XMLSchema#decimal" => some .decimal
  | "http://www.w3.org/2001/XMLSchema#dateTime"
  | "http://www.w3.org/2001/XMLSchema#dateTimeStamp" => some .dateTime
  | "http://www.w3.org/2001/XMLSchema#time" => some .time
  | "http://www.w3.org/2001/XMLSchema#date" => some .date
  | "http://www.w3.org/2001/XMLSchema#gYearMonth" => some .gYearMonth
  | "http://www.w3.org/2001/XMLSchema#gYear" => some .gYear
  | "http://www.w3.org/2001/XMLSchema#gMonthDay" => some .gMonthDay
  | "http://www.w3.org/2001/XMLSchema#gDay" => some .gDay
  | "http://www.w3.org/2001/XMLSchema#gMonth" => some .gMonth
  | "http://www.w3.org/2001/XMLSchema#duration" => some .duration
  | "http://www.w3.org/2001/XMLSchema#yearMonthDuration" => some .yearMonthDuration
  | "http://www.w3.org/2001/XMLSchema#dayTimeDuration" => some .dayTimeDuration
  | _ => none

end NativeType

namespace Encoder

open EncodedTerm Rdf

variable (enc : Encoder)

def encodeNamedNode (node : NamedNode) : EncodedTerm :=
  .namedNode (enc.hash node)

def encodeBlankNode (node : BlankNode) : EncodedTerm :=
  match node.uniqueId with
  | some id => numericalBlankNode ⟨Bytes.ofBitVec 16 id, Bytes.length_ofBitVec⟩
  | none =>
    match SmallString.fromStr node.asStr with
    | .ok id    => smallBlankNode id
    | .error _ => bigBlankNode (enc.hash node.asStr)

def encodeLangString (value language : String) : EncodedTerm :=
  match SmallString.fromStr value, SmallString.fromStr language with
  | .ok value, .ok language => smallSmallLangStringLiteral value language
  | .ok value, .error _     => smallBigLangStringLiteral value (enc.hash language)
  | .error _, .ok language  => bigSmallLangStringLiteral (enc.hash value) language
  | .error _, .error _      => bigBigLangStringLiteral (enc.hash value) (enc.hash language)

def encodeDirLangString (value language : String) : BaseDirection → EncodedTerm
  | .ltr =>
    match SmallString.fromStr value, SmallString.fromStr language with
    | .ok value, .ok language => ltrSmallSmallDirLangStringLiteral value language
    | .ok value, .error _     => ltrSmallBigDirLangStringLiteral value (enc.hash language)
    | .error _, .ok language  => ltrBigSmallDirLangStringLiteral (enc.hash value) language
    | .error _, .error _      => ltrBigBigDirLangStringLiteral (enc.hash value) (enc.hash language)
  | .rtl =>
    match SmallString.fromStr value, SmallString.fromStr language with
    | .ok value, .ok language => rtlSmallSmallDirLangStringLiteral value language
    | .ok value, .error _     => rtlSmallBigDirLangStringLiteral value (enc.hash language)
    | .error _, .ok language  => rtlBigSmallDirLangStringLiteral (enc.hash value) language
    | .error _, .error _      => rtlBigBigDirLangStringLiteral (enc.hash value) (enc.hash language)

def encodeString (value : String) : EncodedTerm :=
  match SmallString.fromStr value with
  | .ok value => smallStringLiteral value
  | .error _  => bigStringLiteral (enc.hash value)

def encodeTyped (value datatype : String) : EncodedTerm :=
  match SmallString.fromStr value with
  | .ok value => smallTypedLiteral value (enc.hash datatype)
  | .error _  => bigTypedLiteral (enc.hash value) (enc.hash datatype)

def parseNative (datatype value : String) : Option EncodedTerm := do
  match ← NativeType.ofDatatype datatype with
  | .boolean           => enc.parseBoolean value |>.map booleanLiteral
  | .float             => enc.parseFloat value |>.map floatLiteral
  | .double            => enc.parseDouble value |>.map doubleLiteral
  | .integer           => enc.parseInteger value |>.map integerLiteral
  | .decimal           => enc.parseDecimal value |>.map decimalLiteral
  | .dateTime          => enc.parseDateTime value |>.map dateTimeLiteral
  | .time              => enc.parseTime value |>.map timeLiteral
  | .date              => enc.parseDate value |>.map dateLiteral
  | .gYearMonth        => enc.parseGYearMonth value |>.map gYearMonthLiteral
  | .gYear             => enc.parseGYear value |>.map gYearLiteral
  | .gMonthDay         => enc.parseGMonthDay value |>.map gMonthDayLiteral
  | .gDay              => enc.parseGDay value |>.map gDayLiteral
  | .gMonth            => enc.parseGMonth value |>.map gMonthLiteral
  | .duration          => enc.parseDuration value |>.map durationLiteral
  | .yearMonthDuration => enc.parseYearMonthDuration value |>.map yearMonthDurationLiteral
  | .dayTimeDuration   => enc.parseDayTimeDuration value |>.map dayTimeDurationLiteral

def nativeEncoding (literal : Literal) : Option EncodedTerm :=
  match literal.datatype with
  | "http://www.w3.org/1999/02/22-rdf-syntax-ns#langString" =>
    literal.language.map (enc.encodeLangString literal.value)
  | "http://www.w3.org/1999/02/22-rdf-syntax-ns#dirLangString" => do
    return enc.encodeDirLangString literal.value (← literal.language) (← literal.direction)
  | "http://www.w3.org/2001/XMLSchema#string" => enc.encodeString literal.value
  | datatype => enc.parseNative datatype literal.value

def encodeLiteral (literal : Literal) : EncodedTerm :=
  enc.nativeEncoding literal |>.getD <| enc.encodeTyped literal.value literal.datatype

def encodeNamedOrBlankNode : NamedOrBlankNode → EncodedTerm
  | .namedNode node => enc.encodeNamedNode node
  | .blankNode node => enc.encodeBlankNode node

def encodeTerm : Term → EncodedTerm
  | .namedNode node     => enc.encodeNamedNode node
  | .blankNode node     => enc.encodeBlankNode node
  | .literal literal    => enc.encodeLiteral literal
  | .triple subject predicate object =>
    .triple (enc.encodeNamedOrBlankNode subject) (enc.encodeNamedNode predicate) (encodeTerm object)

def encodeGraphName : GraphName → EncodedTerm
  | .namedNode node => enc.encodeNamedNode node
  | .blankNode node => enc.encodeBlankNode node
  | .defaultGraph   => .defaultGraph

def encodeQuad (quad : Quad) : EncodedQuad where
  subject   := enc.encodeNamedOrBlankNode quad.subject
  predicate := enc.encodeNamedNode quad.predicate
  object    := enc.encodeTerm quad.object
  graphName := enc.encodeGraphName quad.graphName

-- For concrete runs: all strings have the same hash and no type is stored by value.
def plain : Encoder where
  hash _                   := ⟨.replicate 16 0⟩
  parseBoolean _           := none
  parseFloat _             := none
  parseDouble _            := none
  parseInteger _           := none
  parseDecimal _           := none
  parseDateTime _          := none
  parseTime _              := none
  parseDate _              := none
  parseGYearMonth _        := none
  parseGYear _             := none
  parseGMonthDay _         := none
  parseGDay _              := none
  parseGMonth _            := none
  parseDuration _          := none
  parseYearMonthDuration _ := none
  parseDayTimeDuration _   := none

end Encoder

-- The strings that `insert_term` passes to its callback, in order. There is no result where the
-- source declares the combination of term and encoding unreachable.
def insertTerm : Rdf.Term → EncodedTerm → Option (List (StrHash × String))
  | .namedNode node, .namedNode iriId => some [(iriId, node)]
  | .blankNode node, .bigBlankNode idId => some [(idId, node.asStr)]
  | .blankNode _, .smallBlankNode _ | .blankNode _, .numericalBlankNode _ => some []
  | .literal literal, encoded =>
    match encoded with
    | .bigStringLiteral valueId
    | .bigSmallLangStringLiteral valueId _
    | .ltrBigSmallDirLangStringLiteral valueId _
    | .rtlBigSmallDirLangStringLiteral valueId _ => some [(valueId, literal.value)]
    | .smallBigLangStringLiteral _ languageId
    | .ltrSmallBigDirLangStringLiteral _ languageId
    | .rtlSmallBigDirLangStringLiteral _ languageId => do
      return [(languageId, ← literal.language)]
    | .bigBigLangStringLiteral valueId languageId
    | .ltrBigBigDirLangStringLiteral valueId languageId
    | .rtlBigBigDirLangStringLiteral valueId languageId => do
      return [(valueId, literal.value), (languageId, ← literal.language)]
    | .smallTypedLiteral _ datatypeId => some [(datatypeId, literal.datatype)]
    | .bigTypedLiteral valueId datatypeId =>
      some [(valueId, literal.value), (datatypeId, literal.datatype)]
    | .defaultGraph | .namedNode _ | .numericalBlankNode _ | .smallBlankNode _ | .bigBlankNode _
    | .triple .. => none
    | _ => some []
  | .triple subject predicate object, .triple subject' predicate' object' => do
    let s ← insertTerm subject.toTerm subject'
    let p ← insertTerm (.namedNode predicate) predicate'
    let o ← insertTerm object object'
    return s ++ p ++ o
  | _, _ => none

def termStrs (term : Rdf.Term) (encoded : EncodedTerm) : List (StrHash × String) :=
  insertTerm term encoded |>.getD []
