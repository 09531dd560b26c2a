import OxigraphCloud.Objects.Decoder
import OxigraphCloud.Storage.RocksDb.BulkLoader

namespace RocksDb

-- A file without entries cannot be finished.
def SstFile.finish (sst : SstFile) : Except StorageError SstFile :=
  if sst.isEmpty then
    throw <| .other "Invalid argument: Cannot create sst file with no entries"
  else
    return sst

-- Strings are not looked up in the snapshot of a reader, but in the database.
def Db.getStr (db : Db) : StrLookup := fun key =>
  match (db .id2str)[key.toBeBytes]? with
  | none       => return none
  | some value =>
    match String.fromUTF8? ⟨value.toArray⟩ with
    | some str => return some str
    | none     => throw <| .corruption <| .msg "invalid utf-8 sequence"

namespace StorageReader

variable (r : StorageReader)

def spogQuads (pre : Bytes) : List (Except StorageError EncodedQuad) := r.innerQuads .spog pre .spog
def ospgQuads (pre : Bytes) : List (Except StorageError EncodedQuad) := r.innerQuads .ospg pre .ospg
def dospQuads (pre : Bytes) : List (Except StorageError EncodedQuad) := r.innerQuads .dosp pre .dosp

end StorageReader

def latestStorageVersion : ℕ := 2

def versionKey : Bytes := SmallString.strBytes "oxversion"

def rdfReifies : Rdf.NamedNode := "http://www.w3.org/1999/02/22-rdf-syntax-ns#reifies"

-- Opening a database brings it to the latest version.
namespace Migration

-- Each transaction is committed at once, so what has been done before an error stays.
abbrev Call := ExceptT StorageError (StateM Db)

def snapshot : Call StorageReader := do return { snapshot := ← get, batch := [] }

def updateVersion (version : ℕ) : Call Unit :=
  modify fun db => db.write [(.default, .put versionKey (Bytes.ofBitVec 8 (.ofNat 64 version)))]

def ensureVersion : Call ℕ := do
  match ((← get) .default)[versionKey]? with
  | some version =>
    if version.length = 8 then
      return (Bytes.toBitVec 8 version).toNat
    else
      throw <| .corruption <| .msg
        "Error while parsing the version key: could not convert slice to array"
  | none =>
    updateVersion latestStorageVersion
    return latestStorageVersion

def ensureWritable (writable : Bool) : Call Unit :=
  if writable then
    return ()
  else
    throw <| .other <| "It is not possible to upgrade read-only Oxigraph instances to newer " ++
      "Oxigraph versions, please open in read-write regular mode to upgrade."

def migrateToV1 : Call Unit := do
  let quads : List EncodedQuad ← liftExcept ((← snapshot).quads.mapM id)
  let graphNames := quads.filter (!·.graphName.isDefaultGraph) |>.map EncodedQuad.graphName |>.dedup
  let keys := graphNames.map encodeTerm |>.insertionSort (· ≤ ·)
  let sttFile ← liftExcept (SstFile.write (keys.map fun key => (key, [])))
  let file ← liftExcept sttFile.finish
  modify fun db => db.insertSttFiles [(.graphs, file)]
  updateVersion 1
where
  liftExcept {α : Type} (x : Except StorageError α) : Call α := ExceptT.mk (pure x)

variable (enc : Encoder) (print : Printer)

-- The hash of a triple, which is taken from the standard library and another crate.
variable (hashTriple : Rdf.NamedOrBlankNode → Rdf.NamedNode → Rdf.Term → BitVec 128)

-- The name of the graph of a quad.
def decodeGraph (r : StrLookup) (graphName : EncodedTerm) : Except StorageError Rdf.GraphName :=
  if graphName = .defaultGraph then
    return .defaultGraph
  else
    return .ofNode (← r.decodeNamedOrBlankNode print graphName)

-- Nothing happens to a term that is not an embedded triple.
def toRdf12ReifiedTriple (graphName : EncodedTerm) (r : StrLookup) :
    EncodedTerm → WriteBatch → Except StorageError (EncodedTerm × WriteBatch)
  | .triple subject predicate object, w => do
    let (subject, w) ← toRdf12ReifiedTriple graphName r subject w
    let (object, w) ← toRdf12ReifiedTriple graphName r object w
    let subject ← r.decodeNamedOrBlankNode print subject
    let predicate ← r.decodeNamedNode print predicate
    let object ← r.decodeTerm print object
    let reifier := .anonymous (hashTriple subject predicate object)
    let w := w.insertQuad enc {
      subject   := .blankNode reifier
      predicate := rdfReifies
      object    := .triple subject predicate object
      graphName := ← decodeGraph print r graphName }
    return (enc.encodeBlankNode reifier, w)
  | term, w => return (term, w)

-- The transaction for a quad with an embedded triple.
def reify (db : Db) (quad : EncodedQuad) : Except StorageError WriteBatch := do
  let convert := toRdf12ReifiedTriple enc print hashTriple quad.graphName db.getStr
  let (subject, w) ← convert quad.subject []
  let (object, w) ← convert quad.object w
  let newQuad ← db.getStr.decodeQuad print { quad with subject, object }
  return (w.insertQuad enc newQuad).removeEncoded quad

def migrateQuad (quad : Except StorageError EncodedQuad) : Call Unit := fun db =>
  match quad >>= reify enc print hashTriple db with
  | .ok w    => (.ok (), db.write w)
  | .error e => (.error e, db)

def migrateToV2 : Call Unit := do
  let r ← snapshot
  let pre := [TermType.starTriple.id]
  let quads := r.dspoQuads pre ++ r.spogQuads pre ++ r.dospQuads pre ++ r.ospgQuads pre
  quads.forM (migrateQuad enc print hashTriple)
  updateVersion 2

def migrate (writable : Bool) : Call Unit := do
  let mut version ← ensureVersion
  if version = 0 then
    ensureWritable writable
    migrateToV1
    version := 1
  if version = 1 then
    ensureWritable writable
    migrateToV2 enc print hashTriple
    version := 2
  if version < latestStorageVersion then
    throw <| .corruption <| .msg <|
      s!"The RocksDB database is using the outdated encoding version {version}. " ++
      "Automated migration is not supported, please dump the store dataset using a compatible " ++
      "Oxigraph version and load it again using the current version"
  else if version = latestStorageVersion then
    return ()
  else
    throw <| .corruption <| .msg <|
      s!"The RocksDB database is using the too recent version {version}. " ++
      "Upgrade to the latest Oxigraph version to load this database"

end Migration

end RocksDb
