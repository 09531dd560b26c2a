import OxigraphCloud.Storage.RocksDb.Transaction

namespace RocksDb

-- The entries of an SST file, in the order in which they are written.
abbrev SstFile := List (Bytes × Bytes)

-- The writer of the database library only takes keys in strictly ascending order.
def SstFile.insert (sst : SstFile) (entry : Bytes × Bytes) : Except StorageError SstFile :=
  if sst.getLast?.all (·.1 < entry.1) then
    return sst ++ [entry]
  else
    throw <| .other "Invalid argument: Keys must be added in strict ascending order."

def SstFile.write (entries : List (Bytes × Bytes)) : Except StorageError SstFile :=
  entries.foldlM insert []

abbrev SstFiles := List (Table × SstFile)

def SstFiles.entries (files : SstFiles) : List (Table × Bytes × Bytes) :=
  files.flatMap fun (table, sst) => sst.map fun (key, value) => (table, key, value)

-- Files are ingested in the order of the list.
def Db.insertSttFiles (db : Db) (files : SstFiles) : Db :=
  db.write <| SstFiles.entries files |>.map fun entry => (entry.1, .put entry.2.1 entry.2.2)

-- The hash sets and the hash map are lists without duplicates. Their order does not matter, since
-- everything is sorted before it is written.
structure FileBulkLoader where
  id2str  : List (StrHash × String)
  quads   : List EncodedQuad
  triples : List EncodedQuad
  graphs  : List EncodedTerm

namespace FileBulkLoader

def new : FileBulkLoader := { id2str := [], quads := [], triples := [], graphs := [] }

variable (enc : Encoder)

-- `self.id2str.entry(*key).or_insert_with(..)`
def insertStr (id2str : List (StrHash × String)) (entry : StrHash × String) :
    List (StrHash × String) :=
  if (id2str.lookup entry.1).isSome then id2str else id2str ++ [entry]

def insertTerm (term : Rdf.Term) (encoded : EncodedTerm) (loader : FileBulkLoader) :
    FileBulkLoader :=
  { loader with id2str := (termStrs term encoded).foldl insertStr loader.id2str }

def insertTerms (quad : Rdf.Quad) (encoded : EncodedQuad) (loader : FileBulkLoader) :
    FileBulkLoader :=
  loader
    |>.insertTerm quad.subject.toTerm encoded.subject
    |>.insertTerm (.namedNode quad.predicate) encoded.predicate
    |>.insertTerm quad.object encoded.object

def encodeQuad (loader : FileBulkLoader) (quad : Rdf.Quad) : Except StorageError FileBulkLoader :=
  let encoded := enc.encodeQuad quad
  if quad.graphName.isDefaultGraph then
    if encoded ∈ loader.triples then
      return loader
    else
      return { loader with triples := encoded :: loader.triples }.insertTerms quad encoded
  else if encoded ∈ loader.quads then
    return loader
  else
    let loader := { loader with quads := encoded :: loader.quads }.insertTerms quad encoded
    if encoded.graphName ∈ loader.graphs then
      return loader
    else
      let loader := { loader with graphs := encoded.graphName :: loader.graphs }
      match quad.graphName with
      | .namedNode node => return loader.insertTerm (.namedNode node) encoded.graphName
      | .blankNode node => return loader.insertTerm (.blankNode node) encoded.graphName
      | .defaultGraph   => throw <| .corruption <| .msg "Default graph this not the default graph"

def encode (loader : FileBulkLoader) (quads : List Rdf.Quad) : Except StorageError FileBulkLoader :=
  quads.foldlM (encodeQuad enc) loader

def buildSstForKeys (values : List Bytes) : Except StorageError SstFile :=
  SstFile.write <| values.insertionSort (· ≤ ·) |>.map fun value => (value, [])

def buildId2str (loader : FileBulkLoader) : Except StorageError SstFiles :=
  if loader.id2str.isEmpty then
    return []
  else
    let id2str := loader.id2str.map fun (k, v) => (k.toBeBytes, SmallString.strBytes v)
    return [(.id2str, ← SstFile.write (id2str.insertionSort (·.1 ≤ ·.1)))]

def buildTriples (loader : FileBulkLoader) : Except StorageError SstFiles :=
  if loader.triples.isEmpty then
    return []
  else
    return [
      (.dspo, ← buildSstForKeys <| loader.triples.map fun quad =>
        encodeTermTriple quad.subject quad.predicate quad.object),
      (.dpos, ← buildSstForKeys <| loader.triples.map fun quad =>
        encodeTermTriple quad.predicate quad.object quad.subject),
      (.dosp, ← buildSstForKeys <| loader.triples.map fun quad =>
        encodeTermTriple quad.object quad.subject quad.predicate)]

def buildQuads (loader : FileBulkLoader) : Except StorageError SstFiles :=
  if loader.quads.isEmpty then
    return []
  else
    return [
      (.graphs, ← buildSstForKeys <| loader.graphs.map encodeTerm),
      (.gspo, ← buildSstForKeys <| loader.quads.map fun quad =>
        encodeTermQuad quad.graphName quad.subject quad.predicate quad.object),
      (.gpos, ← buildSstForKeys <| loader.quads.map fun quad =>
        encodeTermQuad quad.graphName quad.predicate quad.object quad.subject),
      (.gosp, ← buildSstForKeys <| loader.quads.map fun quad =>
        encodeTermQuad quad.graphName quad.object quad.subject quad.predicate),
      (.spog, ← buildSstForKeys <| loader.quads.map fun quad =>
        encodeTermQuad quad.subject quad.predicate quad.object quad.graphName),
      (.posg, ← buildSstForKeys <| loader.quads.map fun quad =>
        encodeTermQuad quad.predicate quad.object quad.subject quad.graphName),
      (.ospg, ← buildSstForKeys <| loader.quads.map fun quad =>
        encodeTermQuad quad.object quad.subject quad.predicate quad.graphName)]

def buildSstFiles (loader : FileBulkLoader) : Except StorageError SstFiles :=
  return (← loader.buildId2str) ++ (← loader.buildTriples) ++ (← loader.buildQuads)

-- The result of the thread for a batch.
def load (quads : List Rdf.Quad) : Except StorageError SstFiles := do
  (← encode enc new quads).buildSstFiles

end FileBulkLoader

structure StorageBulkLoader where
  db       : Db
  threads  : List (Except StorageError SstFiles)
  sstFiles : SstFiles
  atomic   : Bool

namespace StorageBulkLoader

variable (enc : Encoder)

abbrev Call := ExceptT StorageError (StateM StorageBulkLoader)

-- Waits for the oldest thread.
def join : Call Unit := fun loader =>
  match loader.threads with
  | []                      => (.ok (), loader)
  | .error e :: threads     => (.error e, { loader with threads := threads })
  | .ok files :: threads    =>
    (.ok (), { loader with threads := threads, sstFiles := loader.sstFiles ++ files })

def doCommit : Call Unit := fun loader =>
  (.ok (), { loader with db := loader.db.insertSttFiles loader.sstFiles, sstFiles := [] })

-- There are at most `fuel` threads to wait for.
def joinDownTo (maxNumThreads : ℕ) : (fuel : ℕ) → Call Unit
  | 0        => return ()
  | fuel + 1 => fun loader =>
    if maxNumThreads ≤ loader.threads.length then
      (do join; joinDownTo maxNumThreads fuel : Call Unit) loader
    else
      (.ok (), loader)

def commitUnlessAtomic : Call Unit := fun loader =>
  if loader.atomic then (.ok (), loader) else doCommit loader

def spawn (outcome : Except StorageError SstFiles) : Call Unit := fun loader =>
  (.ok (), { loader with threads := loader.threads ++ [outcome] })

-- Without any thread the source would wait for ever.
def loadBatch (maxNumThreads : ℕ+) (batch : List Rdf.Quad) : Call Unit := fun loader =>
  (do
    joinDownTo maxNumThreads loader.threads.length
    commitUnlessAtomic
    spawn (FileBulkLoader.load enc batch) : Call Unit) loader

def commit : Call Unit := fun loader =>
  (do
    joinDownTo 0 loader.threads.length
    doCommit : Call Unit) loader

-- The content of the database after a load that is committed at its end.
def run (maxNumThreads : ℕ+) (atomic : Bool) (batches : List (List Rdf.Quad)) (db : Db) :
    Except StorageError Unit × Db :=
  let load : Call Unit := do
    batches.forM (loadBatch enc maxNumThreads)
    commit
  let (result, loader) := load { db, threads := [], sstFiles := [], atomic }
  (result, loader.db)

end StorageBulkLoader

end RocksDb
