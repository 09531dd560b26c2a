import OxigraphCloud.Primitives.Iterator
import OxigraphCloud.Storage.TiKv.Client

namespace TiKv

-- `n as u32`
def asU32 (n : ℕ) : ℕ := n % 2 ^ 32

-- A lazy iterator over one index table. Each batch is read by the same transaction, which is opened
-- for the first batch.
structure PrefetchQuadIterator where
  encoding       : QuadEncoding
  scanRangeStart : Bytes
  scanRangeUpper : Option Bytes
  buffer         : List (Except StorageError EncodedQuad)
  bufferPos      : ℕ
  batchSize      : ℕ
  exhausted      : Bool
  txn            : Option Transaction

def consumed : Except StorageError EncodedQuad := .error (.other "consumed")

-- The keys of a table start with its byte.
def decodePairs (encoding : QuadEncoding) (pairs : List (Bytes × Bytes)) :
    List (Except StorageError EncodedQuad) :=
  pairs.map fun (key, _) => encoding.decode (key.drop 1)

namespace PrefetchQuadIterator

-- The transaction of the iterator. It is opened on the first use.
def getTxn (it : PrefetchQuadIterator) (storage : Storage) :
    Except StorageError Transaction × Storage :=
  match it.txn with
  | some txn => (.ok txn, storage)
  | none     => Storage.beginOptimistic storage

def fetchNextBatch : Call (PrefetchQuadIterator × Storage) Unit := fun (it, storage) =>
  let range : BoundRange Bytes := { start := it.scanRangeStart, upper := it.scanRangeUpper }
  match it.getTxn storage with
  | (.error e, storage) => (.error e, it, storage)
  | (.ok txn, storage) =>
    match txn.scan range (asU32 it.batchSize) with
    | (.error e, txn)  => (.error e, { it with txn := some txn }, storage)
    | (.ok pairs, txn) =>
      (.ok (), {
        it with
        txn            := some txn
        exhausted      :=
          if pairs.isEmpty || pairs.length < it.batchSize then true else it.exhausted
        scanRangeStart :=
          match pairs.getLast? with
          | some (lastKey, _) => lastKey ++ [0x00]
          | none              => it.scanRangeStart
        buffer         := decodePairs it.encoding pairs
        bufferPos      := 0
      }, storage)

def next (s : PrefetchQuadIterator × Storage) :
    Option (Except StorageError EncodedQuad) × PrefetchQuadIterator × Storage :=
  let (it, storage) := s
  match it.buffer[it.bufferPos]? with
  | some item =>
    (some item, {
      it with
      buffer    := it.buffer.set it.bufferPos consumed
      bufferPos := it.bufferPos + 1
    }, storage)
  | none =>
    if it.exhausted then
      (none, it, storage)
    else
      match fetchNextBatch (it, storage) with
      | (.ok (), it, storage) =>
        match it.buffer[0]? with
        | none      => (none, it, storage)
        | some item =>
          (some item, { it with buffer := it.buffer.set 0 consumed, bufferPos := 1 }, storage)
      | (.error e, it, storage) => (some (.error e), { it with exhausted := true }, storage)

end PrefetchQuadIterator

-- An iterator over the default graph tables, the named graph tables, or over the former and then
-- the latter.
structure DecodingQuadIterator where
  first  : PrefetchQuadIterator
  second : Option PrefetchQuadIterator

namespace DecodingQuadIterator

def new (first : PrefetchQuadIterator) : DecodingQuadIterator where
  first  := first
  second := none

def pair (first second : PrefetchQuadIterator) : DecodingQuadIterator where
  first  := first
  second := some second

def next (s : DecodingQuadIterator × Storage) :
    Option (Except StorageError EncodedQuad) × DecodingQuadIterator × Storage :=
  let (it, storage) := s
  match PrefetchQuadIterator.next (it.first, storage) with
  | (some item, first, storage) => (some item, { it with first }, storage)
  | (none, first, storage) =>
    match it.second with
    | none        => (none, { it with first }, storage)
    | some second =>
      match PrefetchQuadIterator.next (second, storage) with
      | (item, second, storage) => (item, { first, second := some second }, storage)

end DecodingQuadIterator

-- The reader of a snapshot owns its transaction. The reader of a readable transaction borrows the
-- transaction of the latter.
structure StorageReader where
  storage  : Storage
  txn      : Transaction
  strCache : List (StrHash × String)

namespace StorageReader

def withTxn (call : Call Transaction α) : Call StorageReader α := fun r =>
  let (a, txn) := call r.txn
  (a, { r with txn })

def containsKey (table : Table) (key : Bytes) : Call StorageReader Bool :=
  withTxn <| Transaction.keyExists (prefixedKey table key)

def scanPrefix (table : Table) (pre : Bytes) : Call StorageReader (List (Bytes × Bytes)) :=
  withTxn <| Transaction.scan (prefixRange (prefixedKey table pre)) u32Max

def scanPrefixKeysLimit (table : Table) (pre : Bytes) (limit : ℕ) :
    Call StorageReader (List Bytes) :=
  withTxn <| Transaction.scanKeys (prefixRange (prefixedKey table pre)) limit

def scanPrefixKeys (table : Table) (pre : Bytes) : Call StorageReader (List Bytes) :=
  scanPrefixKeysLimit table pre u32Max

def len : Call StorageReader ℕ := do
  let gspoKeys ← scanPrefixKeys .gspo []
  let dspoKeys ← scanPrefixKeys .dspo []
  return gspoKeys.length + dspoKeys.length

def isEmpty : Call StorageReader Bool := do
  let gspoKeys ← scanPrefixKeysLimit .gspo [] 1
  if !gspoKeys.isEmpty then
    return false
  let dspoKeys ← scanPrefixKeysLimit .dspo [] 1
  return dspoKeys.isEmpty

def contains (quad : EncodedQuad) : Call StorageReader Bool :=
  if quad.graphName.isDefaultGraph then
    containsKey .dspo (writeSpoQuad quad)
  else
    containsKey .gspo (writeGspoQuad quad)

def containsNamedGraph (graphName : EncodedTerm) : Call StorageReader Bool :=
  containsKey .graphs (encodeTerm graphName)

-- A failed scan gives no graph names.
def namedGraphs (r : StorageReader) : List (Except StorageError EncodedTerm) × StorageReader :=
  let (pairs, r) := scanPrefix .graphs [] r
  let pairs := match pairs with
    | .ok pairs => pairs
    | .error _  => []
  (pairs.map fun (key, _) => decodeTerm (key.drop 1), r)

-- `self.scan_prefix_keys(table, &[])?.len()`
def count (table : Table) : Call StorageReader ℕ := do
  let keys ← scanPrefixKeys table []
  return keys.length

def validate : Call StorageReader Unit := do
  let dspoCount ← count .dspo
  let dposCount ← count .dpos
  let dospCount ← count .dosp
  if dspoCount ≠ dposCount ∨ dspoCount ≠ dospCount then
    throw <| .corruption <| .msg "Not the same number of triples in dspo, dpos and dosp"
  let gspoCount ← count .gspo
  let gposCount ← count .gpos
  let gospCount ← count .gosp
  let spogCount ← count .spog
  let posgCount ← count .posg
  let ospgCount ← count .ospg
  if gspoCount ≠ gposCount ∨ gspoCount ≠ gospCount ∨ gspoCount ≠ spogCount ∨
      gspoCount ≠ posgCount ∨ gspoCount ≠ ospgCount then
    throw <| .corruption <| .msg "Not the same number of quads across named graph indexes"

section Patterns

variable (r : StorageReader)

def innerQuads (table : Table) (pre : Bytes) (encoding : QuadEncoding) : PrefetchQuadIterator where
  encoding       := encoding
  scanRangeStart := prefixedKey table pre
  scanRangeUpper := prefixUpperBound (prefixedKey table pre)
  buffer         := []
  bufferPos      := 0
  batchSize      := r.storage.scanBatchSize
  exhausted      := false
  txn            := none

def spogQuads (pre : Bytes) : PrefetchQuadIterator := r.innerQuads .spog pre .spog
def posgQuads (pre : Bytes) : PrefetchQuadIterator := r.innerQuads .posg pre .posg
def ospgQuads (pre : Bytes) : PrefetchQuadIterator := r.innerQuads .ospg pre .ospg
def gspoQuads (pre : Bytes) : PrefetchQuadIterator := r.innerQuads .gspo pre .gspo
def gposQuads (pre : Bytes) : PrefetchQuadIterator := r.innerQuads .gpos pre .gpos
def gospQuads (pre : Bytes) : PrefetchQuadIterator := r.innerQuads .gosp pre .gosp
def dspoQuads (pre : Bytes) : PrefetchQuadIterator := r.innerQuads .dspo pre .dspo
def dposQuads (pre : Bytes) : PrefetchQuadIterator := r.innerQuads .dpos pre .dpos
def dospQuads (pre : Bytes) : PrefetchQuadIterator := r.innerQuads .dosp pre .dosp

-- The iterator that continues after a first batch.
def prefetched (table : Table) (encoding : QuadEncoding) (pairs : List (Bytes × Bytes)) :
    PrefetchQuadIterator where
  encoding       := encoding
  scanRangeStart :=
    match pairs.getLast? with
    | some (key, _) => key ++ [0x00]
    | none          => prefixedKey table []
  scanRangeUpper := prefixUpperBound (prefixedKey table [])
  buffer         := decodePairs encoding pairs
  bufferPos      := 0
  batchSize      := r.storage.scanBatchSize
  exhausted      := pairs.length < r.storage.scanBatchSize
  txn            := none

def scanFirstBatch (table : Table) (txn : Transaction) :
    Except StorageError (List (Bytes × Bytes)) :=
  Transaction.scan (prefixRange (prefixedKey table [])) (asU32 r.storage.scanBatchSize) txn |>.1

-- Unlike the other iterators these already read their first batches when they are created. Each of
-- the two batches has its own transaction, which is not used for later batches.
def quads : DecodingQuadIterator × StorageReader :=
  let (dspoTxn, storage) := Storage.beginOptimistic r.storage
  let (gspoTxn, storage) := Storage.beginOptimistic storage
  let result : Except StorageError (List (Bytes × Bytes) × List (Bytes × Bytes)) := do
    let dspoTxn ← dspoTxn
    let gspoTxn ← gspoTxn
    let dspoPairs ← r.scanFirstBatch .dspo dspoTxn
    let gspoPairs ← r.scanFirstBatch .gspo gspoTxn
    return (dspoPairs, gspoPairs)
  match result with
  | .ok (dspoPairs, gspoPairs) =>
    (.pair (r.prefetched .dspo .dspo dspoPairs) (r.prefetched .gspo .gspo gspoPairs),
      { r with storage })
  | .error e =>
    (.new { r.dspoQuads [] with buffer := [.error e], exhausted := true }, { r with storage })

def quadsForSubject (subject : EncodedTerm) : DecodingQuadIterator :=
  .pair (r.dspoQuads (encodeTerm subject)) (r.spogQuads (encodeTerm subject))

def quadsForSubjectPredicate (subject predicate : EncodedTerm) : DecodingQuadIterator :=
  .pair (r.dspoQuads (encodeTermPair subject predicate))
    (r.spogQuads (encodeTermPair subject predicate))

def quadsForSubjectPredicateObject (subject predicate object : EncodedTerm) :
    DecodingQuadIterator :=
  .pair (r.dspoQuads (encodeTermTriple subject predicate object))
    (r.spogQuads (encodeTermTriple subject predicate object))

def quadsForSubjectObject (subject object : EncodedTerm) : DecodingQuadIterator :=
  .pair (r.dospQuads (encodeTermPair object subject)) (r.ospgQuads (encodeTermPair object subject))

def quadsForPredicate (predicate : EncodedTerm) : DecodingQuadIterator :=
  .pair (r.dposQuads (encodeTerm predicate)) (r.posgQuads (encodeTerm predicate))

def quadsForPredicateObject (predicate object : EncodedTerm) : DecodingQuadIterator :=
  .pair (r.dposQuads (encodeTermPair predicate object))
    (r.posgQuads (encodeTermPair predicate object))

def quadsForObject (object : EncodedTerm) : DecodingQuadIterator :=
  .pair (r.dospQuads (encodeTerm object)) (r.ospgQuads (encodeTerm object))

def quadsForGraph (graphName : EncodedTerm) : DecodingQuadIterator :=
  .new <| if graphName.isDefaultGraph then
    r.dspoQuads []
  else
    r.gspoQuads (encodeTerm graphName)

def quadsForSubjectGraph (subject graphName : EncodedTerm) : DecodingQuadIterator :=
  .new <| if graphName.isDefaultGraph then
    r.dspoQuads (encodeTerm subject)
  else
    r.gspoQuads (encodeTermPair graphName subject)

def quadsForSubjectPredicateGraph (subject predicate graphName : EncodedTerm) :
    DecodingQuadIterator :=
  .new <| if graphName.isDefaultGraph then
    r.dspoQuads (encodeTermPair subject predicate)
  else
    r.gspoQuads (encodeTermTriple graphName subject predicate)

def quadsForSubjectPredicateObjectGraph (subject predicate object graphName : EncodedTerm) :
    DecodingQuadIterator :=
  .new <| if graphName.isDefaultGraph then
    r.dspoQuads (encodeTermTriple subject predicate object)
  else
    r.gspoQuads (encodeTermQuad graphName subject predicate object)

def quadsForSubjectObjectGraph (subject object graphName : EncodedTerm) : DecodingQuadIterator :=
  .new <| if graphName.isDefaultGraph then
    r.dospQuads (encodeTermPair object subject)
  else
    r.gospQuads (encodeTermTriple graphName object subject)

def quadsForPredicateGraph (predicate graphName : EncodedTerm) : DecodingQuadIterator :=
  .new <| if graphName.isDefaultGraph then
    r.dposQuads (encodeTerm predicate)
  else
    r.gposQuads (encodeTermPair graphName predicate)

def quadsForPredicateObjectGraph (predicate object graphName : EncodedTerm) :
    DecodingQuadIterator :=
  .new <| if graphName.isDefaultGraph then
    r.dposQuads (encodeTermPair predicate object)
  else
    r.gposQuads (encodeTermTriple graphName predicate object)

def quadsForObjectGraph (object graphName : EncodedTerm) : DecodingQuadIterator :=
  .new <| if graphName.isDefaultGraph then
    r.dospQuads (encodeTerm object)
  else
    r.gospQuads (encodeTermPair graphName object)

-- Only the unbound pattern already talks to the store here.
def quadsForPattern (pattern : Pattern) : DecodingQuadIterator × StorageReader :=
  match pattern with
  | ⟨some s, some p, some o, some g⟩ => (r.quadsForSubjectPredicateObjectGraph s p o g, r)
  | ⟨some s, some p, some o, none⟩   => (r.quadsForSubjectPredicateObject s p o, r)
  | ⟨some s, some p, none, some g⟩   => (r.quadsForSubjectPredicateGraph s p g, r)
  | ⟨some s, some p, none, none⟩     => (r.quadsForSubjectPredicate s p, r)
  | ⟨some s, none, some o, some g⟩   => (r.quadsForSubjectObjectGraph s o g, r)
  | ⟨some s, none, some o, none⟩     => (r.quadsForSubjectObject s o, r)
  | ⟨some s, none, none, some g⟩     => (r.quadsForSubjectGraph s g, r)
  | ⟨some s, none, none, none⟩       => (r.quadsForSubject s, r)
  | ⟨none, some p, some o, some g⟩   => (r.quadsForPredicateObjectGraph p o g, r)
  | ⟨none, some p, some o, none⟩     => (r.quadsForPredicateObject p o, r)
  | ⟨none, some p, none, some g⟩     => (r.quadsForPredicateGraph p g, r)
  | ⟨none, some p, none, none⟩       => (r.quadsForPredicate p, r)
  | ⟨none, none, some o, some g⟩     => (r.quadsForObjectGraph o g, r)
  | ⟨none, none, some o, none⟩       => (r.quadsForObject o, r)
  | ⟨none, none, none, some g⟩       => (r.quadsForGraph g, r)
  | ⟨none, none, none, none⟩         => r.quads

end Patterns

end StorageReader

-- The reader of a new read-only transaction.
def snapshot (storage : Storage) (txn : Transaction) : StorageReader where
  storage  := storage
  txn      := txn
  strCache := []

end TiKv
