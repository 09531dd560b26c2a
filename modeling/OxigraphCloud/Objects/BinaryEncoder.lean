import OxigraphCloud.Objects.EncodedTerm

-- The type tags of written terms.
inductive TermType
  | namedNodeId
  | numericalBlankNodeId
  | smallBlankNodeId
  | bigBlankNodeId
  | smallStringLiteral
  | bigStringLiteral
  | smallSmallLangStringLiteral
  | smallBigLangStringLiteral
  | bigSmallLangStringLiteral
  | bigBigLangStringLiteral
  | smallTypedLiteral
  | bigTypedLiteral
  | booleanLiteralTrue
  | booleanLiteralFalse
  | floatLiteral
  | doubleLiteral
  | integerLiteral
  | decimalLiteral
  | dateTimeLiteral
  | timeLiteral
  | dateLiteral
  | gYearMonthLiteral
  | gYearLiteral
  | gMonthDayLiteral
  | gDayLiteral
  | gMonthLiteral
  | durationLiteral
  | yearMonthDurationLiteral
  | dayTimeDurationLiteral
  | starTriple
  | triple
  | ltrSmallSmallDirLangStringLiteral
  | ltrSmallBigDirLangStringLiteral
  | ltrBigSmallDirLangStringLiteral
  | ltrBigBigDirLangStringLiteral
  | rtlSmallSmallDirLangStringLiteral
  | rtlSmallBigDirLangStringLiteral
  | rtlBigSmallDirLangStringLiteral
  | rtlBigBigDirLangStringLiteral
  deriving DecidableEq

namespace TermType

def id : TermType → UInt8
  | namedNodeId                       => 1
  | numericalBlankNodeId              => 8
  | smallBlankNodeId                  => 9
  | bigBlankNodeId                    => 10
  | smallStringLiteral                => 16
  | bigStringLiteral                  => 17
  | smallSmallLangStringLiteral       => 20
  | smallBigLangStringLiteral         => 21
  | bigSmallLangStringLiteral         => 22
  | bigBigLangStringLiteral           => 23
  | smallTypedLiteral                 => 24
  | bigTypedLiteral                   => 25
  | booleanLiteralTrue                => 28
  | booleanLiteralFalse               => 29
  | floatLiteral                      => 30
  | doubleLiteral                     => 31
  | integerLiteral                    => 32
  | decimalLiteral                    => 33
  | dateTimeLiteral                   => 34
  | timeLiteral                       => 35
  | dateLiteral                       => 36
  | gYearMonthLiteral                 => 37
  | gYearLiteral                      => 38
  | gMonthDayLiteral                  => 39
  | gDayLiteral                       => 40
  | gMonthLiteral                     => 41
  | durationLiteral                   => 42
  | yearMonthDurationLiteral          => 43
  | dayTimeDurationLiteral            => 44
  | starTriple                        => 48
  | triple                            => 49
  | ltrSmallSmallDirLangStringLiteral => 56
  | ltrSmallBigDirLangStringLiteral   => 57
  | ltrBigSmallDirLangStringLiteral   => 58
  | ltrBigBigDirLangStringLiteral     => 59
  | rtlSmallSmallDirLangStringLiteral => 60
  | rtlSmallBigDirLangStringLiteral   => 61
  | rtlBigSmallDirLangStringLiteral   => 62
  | rtlBigBigDirLangStringLiteral     => 63

def ofId (id : UInt8) : Option TermType :=
  match id.toNat with
  | 1  => some namedNodeId
  | 8  => some numericalBlankNodeId
  | 9  => some smallBlankNodeId
  | 10 => some bigBlankNodeId
  | 16 => some smallStringLiteral
  | 17 => some bigStringLiteral
  | 20 => some smallSmallLangStringLiteral
  | 21 => some smallBigLangStringLiteral
  | 22 => some bigSmallLangStringLiteral
  | 23 => some bigBigLangStringLiteral
  | 24 => some smallTypedLiteral
  | 25 => some bigTypedLiteral
  | 28 => some booleanLiteralTrue
  | 29 => some booleanLiteralFalse
  | 30 => some floatLiteral
  | 31 => some doubleLiteral
  | 32 => some integerLiteral
  | 33 => some decimalLiteral
  | 34 => some dateTimeLiteral
  | 35 => some timeLiteral
  | 36 => some dateLiteral
  | 37 => some gYearMonthLiteral
  | 38 => some gYearLiteral
  | 39 => some gMonthDayLiteral
  | 40 => some gDayLiteral
  | 41 => some gMonthLiteral
  | 42 => some durationLiteral
  | 43 => some yearMonthDurationLiteral
  | 44 => some dayTimeDurationLiteral
  | 48 => some starTriple
  | 49 => some triple
  | 56 => some ltrSmallSmallDirLangStringLiteral
  | 57 => some ltrSmallBigDirLangStringLiteral
  | 58 => some ltrBigSmallDirLangStringLiteral
  | 59 => some ltrBigBigDirLangStringLiteral
  | 60 => some rtlSmallSmallDirLangStringLiteral
  | 61 => some rtlSmallBigDirLangStringLiteral
  | 62 => some rtlBigSmallDirLangStringLiteral
  | 63 => some rtlBigBigDirLangStringLiteral
  | _  => none

end TermType

abbrev TermReader := StateT Bytes (Except StorageError)

namespace TermReader

def readExact (n : ℕ) : TermReader (ByteArr n) := fun buffer =>
  if h : n ≤ buffer.length then
    .ok (⟨buffer.take n, List.length_take_of_le h⟩, buffer.drop n)
  else
    .error .unexpectedEof

-- Two buffers of 16 bytes which are read before any of them is looked at.
def readPair (f : ByteArr 16 → ByteArr 16 → Except StorageError EncodedTerm) :
    TermReader EncodedTerm := do
  let first ← readExact 16
  let second ← readExact 16
  f first second

def readTimestamp (f : Timestamp → EncodedTerm) : TermReader EncodedTerm := do
  return f <| .fromBeBytes (← readExact 18).toList

open SmallString in
-- What follows the type tag of a term. `readTerm` reads the terms that it contains.
def readBody (readTerm : TermReader EncodedTerm) : TermType → TermReader EncodedTerm
  | .namedNodeId          => return .namedNode <| .fromBeBytes (← readExact 16)
  | .numericalBlankNodeId => return .numericalBlankNode (← readExact 16)
  | .smallBlankNodeId     => return .smallBlankNode (← fromBeBytes (← readExact 16))
  | .bigBlankNodeId       => return .bigBlankNode <| .fromBeBytes (← readExact 16)
  | .smallSmallLangStringLiteral => readPair fun language value =>
    return .smallSmallLangStringLiteral (← fromBeBytes value) (← fromBeBytes language)
  | .smallBigLangStringLiteral => readPair fun language value =>
    return .smallBigLangStringLiteral (← fromBeBytes value) (.fromBeBytes language)
  | .bigSmallLangStringLiteral => readPair fun language value =>
    return .bigSmallLangStringLiteral (.fromBeBytes value) (← fromBeBytes language)
  | .bigBigLangStringLiteral => readPair fun language value =>
    return .bigBigLangStringLiteral (.fromBeBytes value) (.fromBeBytes language)
  | .rtlSmallSmallDirLangStringLiteral => readPair fun language value =>
    return .rtlSmallSmallDirLangStringLiteral (← fromBeBytes value) (← fromBeBytes language)
  | .rtlSmallBigDirLangStringLiteral => readPair fun language value =>
    return .rtlSmallBigDirLangStringLiteral (← fromBeBytes value) (.fromBeBytes language)
  | .rtlBigSmallDirLangStringLiteral => readPair fun language value =>
    return .rtlBigSmallDirLangStringLiteral (.fromBeBytes value) (← fromBeBytes language)
  | .rtlBigBigDirLangStringLiteral => readPair fun language value =>
    return .rtlBigBigDirLangStringLiteral (.fromBeBytes value) (.fromBeBytes language)
  | .ltrSmallSmallDirLangStringLiteral => readPair fun language value =>
    return .ltrSmallSmallDirLangStringLiteral (← fromBeBytes value) (← fromBeBytes language)
  | .ltrSmallBigDirLangStringLiteral => readPair fun language value =>
    return .ltrSmallBigDirLangStringLiteral (← fromBeBytes value) (.fromBeBytes language)
  | .ltrBigSmallDirLangStringLiteral => readPair fun language value =>
    return .ltrBigSmallDirLangStringLiteral (.fromBeBytes value) (← fromBeBytes language)
  | .ltrBigBigDirLangStringLiteral => readPair fun language value =>
    return .ltrBigBigDirLangStringLiteral (.fromBeBytes value) (.fromBeBytes language)
  | .smallTypedLiteral => readPair fun datatype value =>
    return .smallTypedLiteral (← fromBeBytes value) (.fromBeBytes datatype)
  | .bigTypedLiteral => readPair fun datatype value =>
    return .bigTypedLiteral (.fromBeBytes value) (.fromBeBytes datatype)
  | .smallStringLiteral  => return .smallStringLiteral (← fromBeBytes (← readExact 16))
  | .bigStringLiteral    => return .bigStringLiteral <| .fromBeBytes (← readExact 16)
  | .booleanLiteralTrue  => return .booleanLiteral true
  | .booleanLiteralFalse => return .booleanLiteral false
  | .floatLiteral        => return .floatLiteral <| Bytes.toBitVec 4 (← readExact 4).toList
  | .doubleLiteral       => return .doubleLiteral <| Bytes.toBitVec 8 (← readExact 8).toList
  | .integerLiteral      => return .integerLiteral <| Bytes.toBitVec 8 (← readExact 8).toList
  | .decimalLiteral      =>
    return .decimalLiteral <| Bytes.toBitVec 16 (← readExact 16).toList
  | .dateTimeLiteral     => readTimestamp .dateTimeLiteral
  | .timeLiteral         => readTimestamp .timeLiteral
  | .dateLiteral         => readTimestamp .dateLiteral
  | .gYearMonthLiteral   => readTimestamp .gYearMonthLiteral
  | .gYearLiteral        => readTimestamp .gYearLiteral
  | .gMonthDayLiteral    => readTimestamp .gMonthDayLiteral
  | .gDayLiteral         => readTimestamp .gDayLiteral
  | .gMonthLiteral       => readTimestamp .gMonthLiteral
  | .durationLiteral     => return .durationLiteral <| .fromBeBytes (← readExact 24).toList
  | .yearMonthDurationLiteral =>
    return .yearMonthDurationLiteral <| Bytes.toBitVec 8 (← readExact 8).toList
  | .dayTimeDurationLiteral =>
    return .dayTimeDurationLiteral <| Bytes.toBitVec 16 (← readExact 16).toList
  | .triple | .starTriple =>
    return .triple (← readTerm) (← readTerm) (← readTerm)

-- Each nested term takes at least one byte, so the length of the buffer suffices as `fuel`.
def readTermFuel : (fuel : ℕ) → TermReader EncodedTerm
  | 0 => throw .unexpectedEof
  | fuel + 1 => do
    let typeBuffer ← readExact 1
    match TermType.ofId typeBuffer.head with
    | some type => readBody (readTermFuel fuel) type
    | none      => throw <| .corruption <| .msg "the term buffer has an invalid type id"

def readTerm : TermReader EncodedTerm := fun buffer =>
  readTermFuel buffer.length buffer

end TermReader

def decodeTerm (buffer : Bytes) : Except StorageError EncodedTerm := do
  let (term, _) ← TermReader.readTerm buffer
  return term

open SmallString StrHash in
def writeTerm : EncodedTerm → Bytes
  | .defaultGraph            => []
  | .namedNode iriId         => TermType.namedNodeId.id :: iriId.toBeBytes
  | .numericalBlankNode id   => TermType.numericalBlankNodeId.id :: id.toList
  | .smallBlankNode id       => TermType.smallBlankNodeId.id :: id.toBeBytes
  | .bigBlankNode idId       => TermType.bigBlankNodeId.id :: idId.toBeBytes
  | .smallStringLiteral value => TermType.smallStringLiteral.id :: value.toBeBytes
  | .bigStringLiteral valueId => TermType.bigStringLiteral.id :: valueId.toBeBytes
  | .smallSmallLangStringLiteral value language =>
    TermType.smallSmallLangStringLiteral.id :: language.toBeBytes ++ value.toBeBytes
  | .smallBigLangStringLiteral value languageId =>
    TermType.smallBigLangStringLiteral.id :: languageId.toBeBytes ++ value.toBeBytes
  | .bigSmallLangStringLiteral valueId language =>
    TermType.bigSmallLangStringLiteral.id :: language.toBeBytes ++ valueId.toBeBytes
  | .bigBigLangStringLiteral valueId languageId =>
    TermType.bigBigLangStringLiteral.id :: languageId.toBeBytes ++ valueId.toBeBytes
  | .ltrSmallSmallDirLangStringLiteral value language =>
    TermType.ltrSmallSmallDirLangStringLiteral.id :: language.toBeBytes ++ value.toBeBytes
  | .ltrSmallBigDirLangStringLiteral value languageId =>
    TermType.ltrSmallBigDirLangStringLiteral.id :: languageId.toBeBytes ++ value.toBeBytes
  | .ltrBigSmallDirLangStringLiteral valueId language =>
    TermType.ltrBigSmallDirLangStringLiteral.id :: language.toBeBytes ++ valueId.toBeBytes
  | .ltrBigBigDirLangStringLiteral valueId languageId =>
    TermType.ltrBigBigDirLangStringLiteral.id :: languageId.toBeBytes ++ valueId.toBeBytes
  | .rtlSmallSmallDirLangStringLiteral value language =>
    TermType.rtlSmallSmallDirLangStringLiteral.id :: language.toBeBytes ++ value.toBeBytes
  | .rtlSmallBigDirLangStringLiteral value languageId =>
    TermType.rtlSmallBigDirLangStringLiteral.id :: languageId.toBeBytes ++ value.toBeBytes
  | .rtlBigSmallDirLangStringLiteral valueId language =>
    TermType.rtlBigSmallDirLangStringLiteral.id :: language.toBeBytes ++ valueId.toBeBytes
  | .rtlBigBigDirLangStringLiteral valueId languageId =>
    TermType.rtlBigBigDirLangStringLiteral.id :: languageId.toBeBytes ++ valueId.toBeBytes
  | .smallTypedLiteral value datatypeId =>
    TermType.smallTypedLiteral.id :: datatypeId.toBeBytes ++ value.toBeBytes
  | .bigTypedLiteral valueId datatypeId =>
    TermType.bigTypedLiteral.id :: datatypeId.toBeBytes ++ valueId.toBeBytes
  | .booleanLiteral true     => [TermType.booleanLiteralTrue.id]
  | .booleanLiteral false    => [TermType.booleanLiteralFalse.id]
  | .floatLiteral value      => TermType.floatLiteral.id :: Bytes.ofBitVec 4 value
  | .doubleLiteral value     => TermType.doubleLiteral.id :: Bytes.ofBitVec 8 value
  | .integerLiteral value    => TermType.integerLiteral.id :: Bytes.ofBitVec 8 value
  | .decimalLiteral value    => TermType.decimalLiteral.id :: Bytes.ofBitVec 16 value
  | .dateTimeLiteral value   => TermType.dateTimeLiteral.id :: value.toBeBytes
  | .timeLiteral value       => TermType.timeLiteral.id :: value.toBeBytes
  | .durationLiteral value   => TermType.durationLiteral.id :: value.toBeBytes
  | .dateLiteral value       => TermType.dateLiteral.id :: value.toBeBytes
  | .gYearMonthLiteral value => TermType.gYearMonthLiteral.id :: value.toBeBytes
  | .gYearLiteral value      => TermType.gYearLiteral.id :: value.toBeBytes
  | .gMonthDayLiteral value  => TermType.gMonthDayLiteral.id :: value.toBeBytes
  | .gDayLiteral value       => TermType.gDayLiteral.id :: value.toBeBytes
  | .gMonthLiteral value     => TermType.gMonthLiteral.id :: value.toBeBytes
  | .yearMonthDurationLiteral value =>
    TermType.yearMonthDurationLiteral.id :: Bytes.ofBitVec 8 value
  | .dayTimeDurationLiteral value =>
    TermType.dayTimeDurationLiteral.id :: Bytes.ofBitVec 16 value
  | .triple subject predicate object =>
    TermType.triple.id :: writeTerm subject ++ writeTerm predicate ++ writeTerm object

def encodeTerm (t : EncodedTerm) : Bytes := writeTerm t

def encodeTermPair (t₁ t₂ : EncodedTerm) : Bytes := writeTerm t₁ ++ writeTerm t₂

def encodeTermTriple (t₁ t₂ t₃ : EncodedTerm) : Bytes :=
  writeTerm t₁ ++ writeTerm t₂ ++ writeTerm t₃

def encodeTermQuad (t₁ t₂ t₃ t₄ : EncodedTerm) : Bytes :=
  writeTerm t₁ ++ writeTerm t₂ ++ writeTerm t₃ ++ writeTerm t₄

inductive Position
  | subject
  | predicate
  | object
  | graphName
  deriving DecidableEq

namespace EncodedQuad

def term (quad : EncodedQuad) : Position → EncodedTerm
  | .subject   => quad.subject
  | .predicate => quad.predicate
  | .object    => quad.object
  | .graphName => quad.graphName

def set (quad : EncodedQuad) (term : EncodedTerm) : Position → EncodedQuad
  | .subject   => { quad with subject := term }
  | .predicate => { quad with predicate := term }
  | .object    => { quad with object := term }
  | .graphName => { quad with graphName := term }

end EncodedQuad

def writeQuad (positions : List Position) (quad : EncodedQuad) : Bytes :=
  positions.flatMap fun p => writeTerm (quad.term p)

def writeSpogQuad : EncodedQuad → Bytes := writeQuad [.subject, .predicate, .object, .graphName]
def writePosgQuad : EncodedQuad → Bytes := writeQuad [.predicate, .object, .subject, .graphName]
def writeOspgQuad : EncodedQuad → Bytes := writeQuad [.object, .subject, .predicate, .graphName]
def writeGspoQuad : EncodedQuad → Bytes := writeQuad [.graphName, .subject, .predicate, .object]
def writeGposQuad : EncodedQuad → Bytes := writeQuad [.graphName, .predicate, .object, .subject]
def writeGospQuad : EncodedQuad → Bytes := writeQuad [.graphName, .object, .subject, .predicate]
def writeSpoQuad  : EncodedQuad → Bytes := writeQuad [.subject, .predicate, .object]
def writePosQuad  : EncodedQuad → Bytes := writeQuad [.predicate, .object, .subject]
def writeOspQuad  : EncodedQuad → Bytes := writeQuad [.object, .subject, .predicate]

namespace TermReader

def readInto (quad : EncodedQuad) (p : Position) : TermReader EncodedQuad := do
  return quad.set (← readTerm) p

-- Positions that are not read stay the default graph.
def readQuad (positions : List Position) : TermReader EncodedQuad :=
  positions.foldlM readInto ⟨.defaultGraph, .defaultGraph, .defaultGraph, .defaultGraph⟩

def readSpogQuad : TermReader EncodedQuad := readQuad [.subject, .predicate, .object, .graphName]
def readPosgQuad : TermReader EncodedQuad := readQuad [.predicate, .object, .subject, .graphName]
def readOspgQuad : TermReader EncodedQuad := readQuad [.object, .subject, .predicate, .graphName]
def readGspoQuad : TermReader EncodedQuad := readQuad [.graphName, .subject, .predicate, .object]
def readGposQuad : TermReader EncodedQuad := readQuad [.graphName, .predicate, .object, .subject]
def readGospQuad : TermReader EncodedQuad := readQuad [.graphName, .object, .subject, .predicate]
def readDspoQuad : TermReader EncodedQuad := readQuad [.subject, .predicate, .object]
def readDposQuad : TermReader EncodedQuad := readQuad [.predicate, .object, .subject]
def readDospQuad : TermReader EncodedQuad := readQuad [.object, .subject, .predicate]

end TermReader

inductive QuadEncoding
  | spog
  | posg
  | ospg
  | gspo
  | gpos
  | gosp
  | dspo
  | dpos
  | dosp
  deriving DecidableEq

namespace QuadEncoding

def reader : QuadEncoding → TermReader EncodedQuad
  | spog => TermReader.readSpogQuad
  | posg => TermReader.readPosgQuad
  | ospg => TermReader.readOspgQuad
  | gspo => TermReader.readGspoQuad
  | gpos => TermReader.readGposQuad
  | gosp => TermReader.readGospQuad
  | dspo => TermReader.readDspoQuad
  | dpos => TermReader.readDposQuad
  | dosp => TermReader.readDospQuad

def decode (encoding : QuadEncoding) (buffer : Bytes) : Except StorageError EncodedQuad := do
  let (quad, _) ← encoding.reader buffer
  return quad

def writer : QuadEncoding → EncodedQuad → Bytes
  | spog => writeSpogQuad
  | posg => writePosgQuad
  | ospg => writeOspgQuad
  | gspo => writeGspoQuad
  | gpos => writeGposQuad
  | gosp => writeGospQuad
  | dspo => writeSpoQuad
  | dpos => writePosQuad
  | dosp => writeOspQuad

def positions : QuadEncoding → List Position
  | spog => [.subject, .predicate, .object, .graphName]
  | posg => [.predicate, .object, .subject, .graphName]
  | ospg => [.object, .subject, .predicate, .graphName]
  | gspo => [.graphName, .subject, .predicate, .object]
  | gpos => [.graphName, .predicate, .object, .subject]
  | gosp => [.graphName, .object, .subject, .predicate]
  | dspo => [.subject, .predicate, .object]
  | dpos => [.predicate, .object, .subject]
  | dosp => [.object, .subject, .predicate]

def forDefaultGraph (e : QuadEncoding) : Bool := .graphName ∉ e.positions

-- An index of the default graph holds the quads of the default graph, all others hold the quads of
-- the named graphs.
structure Indexes (e : QuadEncoding) (q : EncodedQuad) : Prop where
  isQuad : q.IsQuad
  graph  : q.graphName = .defaultGraph ↔ e.forDefaultGraph

end QuadEncoding

-- The term that is read back. It only differs from the written one in timezone offsets of -1.
def EncodedTerm.canonical : EncodedTerm → EncodedTerm
  | dateTimeLiteral value   => dateTimeLiteral value.canonical
  | timeLiteral value       => timeLiteral value.canonical
  | dateLiteral value       => dateLiteral value.canonical
  | gYearMonthLiteral value => gYearMonthLiteral value.canonical
  | gYearLiteral value      => gYearLiteral value.canonical
  | gMonthDayLiteral value  => gMonthDayLiteral value.canonical
  | gDayLiteral value       => gDayLiteral value.canonical
  | gMonthLiteral value     => gMonthLiteral value.canonical
  | triple s p o            => triple s.canonical p.canonical o.canonical
  | term                    => term

def EncodedQuad.canonical (quad : EncodedQuad) : EncodedQuad where
  subject   := quad.subject.canonical
  predicate := quad.predicate.canonical
  object    := quad.object.canonical
  graphName := quad.graphName.canonical
