import OxigraphCloud.Storage.Memory.Content

namespace Memory

inductive LogEntry
  | quadNode (node : EncodedQuad)
  | graph (graphName : EncodedTerm)
  deriving DecidableEq

-- A transaction works on the shared storage. It holds a lock, so that there is only one at a time.
-- The two kinds of transactions of the other backends are both of this kind.
structure MemoryStorageTransaction where
  storage       : MemoryStorage
  log           : List LogEntry
  transactionId : ℕ
  snapshotId    : ℕ

def MemoryStorage.startTransaction (storage : MemoryStorage) : MemoryStorageTransaction where
  storage       := { storage with transactionCounter := storage.transactionCounter + 1 }
  log           := []
  transactionId := storage.transactionCounter + 1
  snapshotId    := storage.versionCounter

namespace Content

-- The range of a node or of a named graph.
def range (content : Content) : LogEntry → Option VersionRange
  | .quadNode node   => (content.node node).map QuadListNode.range
  | .graph graphName => content.graph graphName

def modify (f : VersionRange → VersionRange) : LogEntry → Content → Content
  | .quadNode node, content   =>
    let quadSet :=
      Keyed.modify QuadListNode.quad node (fun node => { node with range := f node.range })
      content.quadSet
    { content with quadSet }
  | .graph graphName, content =>
    let graphs := Keyed.modify Prod.fst graphName (fun entry => (entry.1, f entry.2)) content.graphs
    { content with graphs }

-- Puts a new node in front of the lists it belongs to.
def pushNode (quad : EncodedQuad) (range : VersionRange) (content : Content) : Content where
  quadSet    := {
    quad
    range
    previous   := content.lastQuad
    previousBy := fun p => (content.lastQuadBy p (quad.term p)).map Prod.fst
  } :: content.quadSet
  lastQuad   := some quad
  lastQuadBy := fun p term =>
    if term = quad.term p then
      match content.lastQuadBy p term with
      | some (_, count) => some (quad, count + 1)
      | none            => some (quad, 1)
    else
      content.lastQuadBy p term
  graphs     := content.graphs

def pushGraph (graphName : EncodedTerm) (range : VersionRange) (content : Content) : Content :=
  { content with graphs := (graphName, range) :: content.graphs }

end Content

namespace MemoryStorageTransaction

def reader (t : MemoryStorageTransaction) : MemoryStorageReader where
  snapshotId := t.transactionId

def modifyContent (f : Content → Content) (t : MemoryStorageTransaction) :
    MemoryStorageTransaction :=
  { t with storage := { t.storage with content := f t.storage.content } }

def push (entry : LogEntry) (t : MemoryStorageTransaction) : MemoryStorageTransaction :=
  { t with log := t.log ++ [entry] }

def insertStr (t : MemoryStorageTransaction) (entry : StrHash × String) :
    MemoryStorageTransaction :=
  let id2str key := t.storage.id2str key <|> if key = entry.1 then some entry.2 else none
  { t with storage := { t.storage with id2str } }

def insertTerm (term : Rdf.Term) (encoded : EncodedTerm) (t : MemoryStorageTransaction) :
    MemoryStorageTransaction :=
  (termStrs term encoded).foldl insertStr t

-- Changes the range of a node or of a named graph and logs the change, if there is one.
def change (f : VersionRange → Bool × VersionRange) (entry : LogEntry)
    (t : MemoryStorageTransaction) : Bool × MemoryStorageTransaction :=
  match t.storage.content.range entry with
  | none       => (false, t)
  | some range =>
    let t' := t.modifyContent (.modify (fun range => (f range).2) entry)
    if (f range).1 then (true, t'.push entry) else (false, t')

def insertEncodedNamedGraph (graphName : Rdf.NamedOrBlankNode) (encoded : EncodedTerm)
    (t : MemoryStorageTransaction) : MemoryStorageTransaction :=
  match t.storage.content.graph encoded with
  | some _ => (t.change (VersionRange.add t.transactionId) (.graph encoded)).2
  | none   =>
    let t := t.modifyContent (.pushGraph encoded (.start t.transactionId))
    (t.insertTerm graphName.toTerm encoded).push (.graph encoded)

variable (enc : Encoder)

def insertNamedGraph (graphName : Rdf.NamedOrBlankNode) (t : MemoryStorageTransaction) :
    MemoryStorageTransaction :=
  t.insertEncodedNamedGraph graphName (enc.encodeNamedOrBlankNode graphName)

def insert (quad : Rdf.Quad) (t : MemoryStorageTransaction) : MemoryStorageTransaction :=
  let encoded := enc.encodeQuad quad
  match t.storage.content.node encoded with
  | some _ =>
    match t.change (VersionRange.add t.transactionId) (.quadNode encoded) with
    -- The graph name of a node is always known here.
    | (true, t)  =>
      if quad.graphName.isDefaultGraph then t else
        (t.change (VersionRange.add t.transactionId) (.graph encoded.graphName)).2
    | (false, t) => t
  | none =>
    let t := t.modifyContent (.pushNode encoded (.start t.transactionId))
    let t := t.insertTerm quad.subject.toTerm encoded.subject
    let t := t.insertTerm (.namedNode quad.predicate) encoded.predicate
    let t := t.insertTerm quad.object encoded.object
    let t :=
      match quad.graphName with
      | .namedNode graphName => t.insertEncodedNamedGraph (.namedNode graphName) encoded.graphName
      | .blankNode graphName => t.insertEncodedNamedGraph (.blankNode graphName) encoded.graphName
      | .defaultGraph        => t
    t.push (.quadNode encoded)

def removeNode (t : MemoryStorageTransaction) (quad : EncodedQuad) : MemoryStorageTransaction :=
  (t.change (VersionRange.remove t.transactionId) (.quadNode quad)).2

def removeEncoded (quad : EncodedQuad) (t : MemoryStorageTransaction) : MemoryStorageTransaction :=
  t.removeNode quad

def remove (quad : Rdf.Quad) (t : MemoryStorageTransaction) : MemoryStorageTransaction :=
  t.removeEncoded (enc.encodeQuad quad)

-- The loop along the list of a graph. The first argument bounds the number of nodes that are left.
def clearList : ℕ → Option EncodedQuad → MemoryStorageTransaction → MemoryStorageTransaction
  | 0, _, t        => t
  | n + 1, next, t =>
    match next.bind t.storage.content.node with
    | none         => t
    | some current => clearList n (current.previousBy .graphName) (t.removeNode current.quad)

def clearEncodedGraph (t : MemoryStorageTransaction) (graphName : EncodedTerm) :
    MemoryStorageTransaction :=
  let content := t.storage.content
  clearList content.quadSet.length ((content.lastQuadBy .graphName graphName).map Prod.fst) t

def clearGraph (graphName : Rdf.GraphName) (t : MemoryStorageTransaction) :
    MemoryStorageTransaction :=
  t.clearEncodedGraph (enc.encodeGraphName graphName)

def clearAllNamedGraphs (t : MemoryStorageTransaction) : MemoryStorageTransaction :=
  (t.reader.namedGraphs t.storage.content).foldl clearEncodedGraph t

def clearAllGraphs (t : MemoryStorageTransaction) : MemoryStorageTransaction :=
  (t.storage.content.quadSet.map QuadListNode.quad).foldl removeNode t

def removeGraphName (t : MemoryStorageTransaction) (graphName : EncodedTerm) :
    MemoryStorageTransaction :=
  (t.change (VersionRange.remove t.transactionId) (.graph graphName)).2

def removeEncodedNamedGraph (graphName : EncodedTerm) (t : MemoryStorageTransaction) :
    MemoryStorageTransaction :=
  (t.clearEncodedGraph graphName).removeGraphName graphName

def removeNamedGraph (graphName : Rdf.NamedOrBlankNode) (t : MemoryStorageTransaction) :
    MemoryStorageTransaction :=
  t.removeEncodedNamedGraph (enc.encodeNamedOrBlankNode graphName)

def doRemoveGraphs (t : MemoryStorageTransaction) : MemoryStorageTransaction :=
  (t.storage.content.graphs.map Prod.fst).foldl removeGraphName t

def removeAllNamedGraphs (t : MemoryStorageTransaction) : MemoryStorageTransaction :=
  t.clearAllNamedGraphs.doRemoveGraphs

def clear (t : MemoryStorageTransaction) : MemoryStorageTransaction :=
  t.clearAllGraphs.doRemoveGraphs

def apply : ReadableOp → MemoryStorageTransaction → MemoryStorageTransaction
  | .insert quad                => insert enc quad
  | .insertNamedGraph graphName => insertNamedGraph enc graphName
  | .remove quad                => remove enc quad
  | .clearGraph graphName       => clearGraph enc graphName
  | .clearAllNamedGraphs        => clearAllNamedGraphs
  | .clearAllGraphs             => clearAllGraphs
  | .removeNamedGraph graphName => removeNamedGraph enc graphName
  | .removeAllNamedGraphs       => removeAllNamedGraphs
  | .clear                      => clear

-- What the end of a transaction does for each entry of the log.
def finishEntry (f : VersionRange → VersionRange) (storage : MemoryStorage) (entry : LogEntry) :
    MemoryStorage :=
  { storage with content := storage.content.modify f entry }

def upgradeEntry (t : MemoryStorageTransaction) : MemoryStorage → LogEntry → MemoryStorage :=
  finishEntry (.upgradeTransaction t.transactionId (t.snapshotId + 1))

def rollbackEntry (t : MemoryStorageTransaction) : MemoryStorage → LogEntry → MemoryStorage :=
  finishEntry (.rollbackTransaction t.transactionId)

def publish (t : MemoryStorageTransaction) (storage : MemoryStorage) : MemoryStorage :=
  { storage with versionCounter := t.snapshotId + 1 }

def commit (t : MemoryStorageTransaction) : MemoryStorage :=
  t.publish (t.log.foldl t.upgradeEntry t.storage)

-- `drop` of a transaction that is not committed.
def rollback (t : MemoryStorageTransaction) : MemoryStorage := t.log.foldl t.rollbackEntry t.storage

end MemoryStorageTransaction

end Memory
