import OxigraphCloud.Storage.Readable
import OxigraphCloud.Storage.RocksDb.Wrapper

namespace RocksDb

def batchSize : ℕ := 100000

abbrev StorageReader := Reader

namespace StorageReader

variable (r : StorageReader)

-- The items of an iterator over one index.
def innerQuads (columnFamily : Table) (pre : Bytes) (encoding : QuadEncoding) :
    List (Except StorageError EncodedQuad) :=
  (r.scanPrefix columnFamily pre).map encoding.decode

def dspoQuads (pre : Bytes) : List (Except StorageError EncodedQuad) := r.innerQuads .dspo pre .dspo
def gspoQuads (pre : Bytes) : List (Except StorageError EncodedQuad) := r.innerQuads .gspo pre .gspo

def quads : List (Except StorageError EncodedQuad) := r.dspoQuads [] ++ r.gspoQuads []

def quadsForGraph (graphName : EncodedTerm) : List (Except StorageError EncodedQuad) :=
  if graphName.isDefaultGraph then
    r.dspoQuads []
  else
    r.gspoQuads (encodeTerm graphName)

def namedGraphs : List (Except StorageError EncodedTerm) := (r.iter .graphs).map decodeTerm

end StorageReader

-- The writes of both kinds of transactions.
namespace WriteBatch

variable (enc : Encoder)

def insertQuad (quad : Rdf.Quad) (batch : WriteBatch) : WriteBatch :=
  (Layout.insertEntries enc quad).foldl insert batch

def insertNamedGraph (graphName : Rdf.NamedOrBlankNode) (batch : WriteBatch) : WriteBatch :=
  (Layout.insertNamedGraphEntries enc graphName).foldl insert batch

def removeEncoded (batch : WriteBatch) (quad : EncodedQuad) : WriteBatch :=
  (Layout.quadKeys quad).foldl remove batch

def removeQuad (quad : Rdf.Quad) (batch : WriteBatch) : WriteBatch :=
  batch.removeEncoded (enc.encodeQuad quad)

end WriteBatch

-- A write-only transaction.
namespace StorageTransaction

open WriteBatch

def removeTables (tables : List Table) (batch : WriteBatch) : WriteBatch :=
  tables.foldl (fun batch table => batch.removeRange table [] [0xFF]) batch

def clearDefaultGraph : WriteBatch → WriteBatch :=
  removeTables [.dspo, .dpos, .dosp]

def clearAllNamedGraphs : WriteBatch → WriteBatch :=
  removeTables [.gspo, .gpos, .gosp, .spog, .posg, .ospg]

def removeAllNamedGraphs (batch : WriteBatch) : WriteBatch :=
  removeTables [.graphs] (clearAllNamedGraphs batch)

def clearAllGraphs (batch : WriteBatch) : WriteBatch :=
  removeAllNamedGraphs (clearDefaultGraph batch)

def clear (batch : WriteBatch) : WriteBatch :=
  removeAllNamedGraphs (clearDefaultGraph batch)

def apply (enc : Encoder) : WriteOp → WriteBatch → WriteBatch
  | .insert quad                => insertQuad enc quad
  | .insertNamedGraph graphName => insertNamedGraph enc graphName
  | .remove quad                => removeQuad enc quad
  | .clearDefaultGraph          => clearDefaultGraph
  | .clearAllNamedGraphs        => clearAllNamedGraphs
  | .clearAllGraphs             => clearAllGraphs
  | .removeAllNamedGraphs       => removeAllNamedGraphs
  | .clear                      => clear

end StorageTransaction

-- A transaction that can be read from while it is written to.
structure ReadableTransaction where
  snapshot : Db
  batch    : WriteBatch

namespace ReadableTransaction

def reader (t : ReadableTransaction) : StorageReader where
  snapshot := t.snapshot
  batch    := t.batch

def takeQuads (graphName : EncodedTerm) (t : ReadableTransaction) :
    Except StorageError (List EncodedQuad) :=
  (t.reader.quadsForGraph graphName |>.take batchSize).mapM id

def takeGraphNames (t : ReadableTransaction) : Except StorageError (List EncodedTerm) :=
  (t.reader.namedGraphs.take batchSize).mapM id

def backend (enc : Encoder) : ReadableBackend ReadableTransaction where
  encoder                      := enc
  batchSize                    := batchSize
  takeQuads graphName t        := (t.takeQuads graphName, t)
  takeGraphNames t             := (t.takeGraphNames, t)
  insert quad t                := { t with batch := t.batch.insertQuad enc quad }
  insertNamedGraph graphName t := { t with batch := t.batch.insertNamedGraph enc graphName }
  removeEncoded t quad         := { t with batch := t.batch.removeEncoded quad }
  removeGraphName graphName t  := { t with batch := t.batch.remove (.graphs, writeTerm graphName) }

end ReadableTransaction

end RocksDb
