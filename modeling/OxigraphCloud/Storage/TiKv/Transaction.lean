import OxigraphCloud.Storage.Readable
import OxigraphCloud.Storage.TiKv.Reader

namespace TiKv

-- The writes of both kinds of transactions. The results of the single calls are ignored.
namespace Transaction

-- `put_empty` and `insert_str`
def putEntry (txn : Transaction) (entry : Table × Bytes × Bytes) : Transaction :=
  Call.ignore (put (prefixedKey entry.1 entry.2.1) entry.2.2) txn

def deleteKey (txn : Transaction) (entry : Table × Bytes) : Transaction :=
  Call.ignore (delete (prefixedKey entry.1 entry.2)) txn

def insert (enc : Encoder) (quad : Rdf.Quad) (txn : Transaction) : Transaction :=
  (Layout.insertEntries enc quad).foldl putEntry txn

def insertNamedGraph (enc : Encoder) (graphName : Rdf.NamedOrBlankNode) (txn : Transaction) :
    Transaction :=
  (Layout.insertNamedGraphEntries enc graphName).foldl putEntry txn

def removeEncoded (txn : Transaction) (quad : EncodedQuad) : Transaction :=
  (Layout.quadKeys quad).foldl deleteKey txn

def remove (enc : Encoder) (quad : Rdf.Quad) (txn : Transaction) : Transaction :=
  txn.removeEncoded (enc.encodeQuad quad)

end Transaction

-- A write-only transaction.
namespace StorageTransaction

open Transaction

-- Deletes all keys of a table, if they can be scanned.
def deletePrefix (table : Table) (txn : Transaction) : Transaction :=
  match scanKeys (prefixRange (prefixedKey table [])) u32Max txn with
  | (.ok keys, txn) => keys.foldl (fun txn key => Call.ignore (delete key) txn) txn
  | (.error _, txn) => txn

def deletePrefixes (tables : List Table) (txn : Transaction) : Transaction :=
  tables.foldl (fun txn table => deletePrefix table txn) txn

def clearDefaultGraph : Transaction → Transaction :=
  deletePrefixes [.dspo, .dpos, .dosp]

def clearAllNamedGraphs : Transaction → Transaction :=
  deletePrefixes [.gspo, .gpos, .gosp, .spog, .posg, .ospg]

def removeAllNamedGraphs (txn : Transaction) : Transaction :=
  deletePrefix .graphs (clearAllNamedGraphs txn)

def clearAllGraphs (txn : Transaction) : Transaction :=
  removeAllNamedGraphs (clearDefaultGraph txn)

def clear (txn : Transaction) : Transaction :=
  removeAllNamedGraphs (clearDefaultGraph txn)

def apply (enc : Encoder) : WriteOp → Transaction → Transaction
  | .insert quad                => insert enc quad
  | .insertNamedGraph graphName => insertNamedGraph enc graphName
  | .remove quad                => remove enc quad
  | .clearDefaultGraph          => clearDefaultGraph
  | .clearAllNamedGraphs        => clearAllNamedGraphs
  | .clearAllGraphs             => clearAllGraphs
  | .removeAllNamedGraphs       => removeAllNamedGraphs
  | .clear                      => clear

def applyAll (enc : Encoder) (ops : List WriteOp) (txn : Transaction) : Transaction :=
  ops.foldl (fun txn op => apply enc op txn) txn

end StorageTransaction

-- A transaction that can be read from while it is written to.
structure ReadableTransaction where
  txn     : Transaction
  storage : Storage

namespace ReadableTransaction

-- The reader has the transaction itself, but its iterators open transactions of their own.
def reader (t : ReadableTransaction) : StorageReader where
  storage  := t.storage
  txn      := t.txn
  strCache := []

def takeQuads (graphName : EncodedTerm) (t : ReadableTransaction) :
    Except StorageError (List EncodedQuad) × ReadableTransaction :=
  let it := t.reader.quadsForGraph graphName
  let (quads, _, storage) := Iter.takeCollect DecodingQuadIterator.next batchSize (it, t.storage)
  (quads, { t with storage })

def takeGraphNames (t : ReadableTransaction) :
    Except StorageError (List EncodedTerm) × ReadableTransaction :=
  let (graphNames, reader) := t.reader.namedGraphs
  ((graphNames.take batchSize).mapM id, { t with txn := reader.txn })

def backend (enc : Encoder) : ReadableBackend ReadableTransaction where
  encoder                      := enc
  batchSize                    := batchSize
  takeQuads                    := takeQuads
  takeGraphNames               := takeGraphNames
  insert quad t                := { t with txn := t.txn.insert enc quad }
  insertNamedGraph graphName t := { t with txn := t.txn.insertNamedGraph enc graphName }
  removeEncoded t quad         := { t with txn := t.txn.removeEncoded quad }
  removeGraphName graphName t  := { t with txn := t.txn.deleteKey (.graphs, writeTerm graphName) }

end ReadableTransaction

end TiKv
