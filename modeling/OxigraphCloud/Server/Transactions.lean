import OxigraphCloud.Server.Store

inductive BufferedOp
  | insertQuads (quads : List Rdf.Quad)
  | removeQuads (quads : List Rdf.Quad)
  | sparqlUpdate (sparql : String)
  deriving DecidableEq

structure ActiveTransaction where
  ops        : List BufferedOp
  lastActive : ℕ

structure TransactionRegistry where
  txns    : Finmap fun _ : String => ActiveTransaction
  timeout : ℕ

structure CommitResult where
  txnId : String
  ops   : List BufferedOp

inductive TransactionError
  | notFound
  | parse (message : String)
  | query (message : String)
  | storage (message : String)
  deriving DecidableEq

def Services.replayOp (sv : Services) (s : Store) : BufferedOp → Except TransactionError Store
  | .insertQuads quads => .ok <| s.insertAll quads
  | .removeQuads quads => .ok <| s.removeAll quads
  | .sparqlUpdate sparql =>
    match sv.parseUpdate sparql with
    | .error e => .error (.query e)
    | .ok update =>
      match update.onTransaction s with
      | .error e => .error (.query e)
      | .ok s'   => .ok s'

def Services.replayOps (sv : Services) (ops : List BufferedOp) (s : Store) :
    Except TransactionError Store :=
  ops.foldlM sv.replayOp s

namespace TransactionRegistry

variable (sv : Services) (am : Ambient) (r : TransactionRegistry)

def new (timeout : ℕ) : TransactionRegistry where
  txns    := ∅
  timeout := timeout

def begin : String × TransactionRegistry :=
  (am.uuid, { r with txns := r.txns.insert am.uuid { ops := [], lastActive := am.now } })

-- The operations that are buffered only differ in what they push.
def push (txnId : String) (op : BufferedOp) : Except TransactionError Unit × TransactionRegistry :=
  match r.txns.lookup txnId with
  | none     => (.error .notFound, r)
  | some txn =>
    let txn := { ops := txn.ops ++ [op], lastActive := am.now }
    (.ok (), { r with txns := r.txns.insert txnId txn })

def pushParsed (txnId : String) (format : RdfFormat) (body : Bytes)
    (op : List Rdf.Quad → BufferedOp) : Except TransactionError ℕ × TransactionRegistry :=
  match (sv.parse format body).mapM id with
  | .error e  => (.error (.parse e), r)
  | .ok quads =>
    match r.push am txnId (op quads) with
    | (.error e, r') => (.error e, r')
    | (.ok (), r')   => (.ok quads.length, r')

def add (txnId : String) (format : RdfFormat) (body : Bytes) :
    Except TransactionError ℕ × TransactionRegistry :=
  r.pushParsed sv am txnId format body .insertQuads

def remove (txnId : String) (format : RdfFormat) (body : Bytes) :
    Except TransactionError ℕ × TransactionRegistry :=
  r.pushParsed sv am txnId format body .removeQuads

def update (txnId sparql : String) : Except TransactionError Unit × TransactionRegistry :=
  r.push am txnId (.sparqlUpdate sparql)

-- The replayed transaction is dropped. Neither the store nor the registry changes.
def query (txnId : String) (s : Store) (sparql : String) : Except TransactionError String :=
  match r.txns.lookup txnId with
  | none     => .error .notFound
  | some txn =>
    match (am.faults .write).start with
    | some e => .error (.storage e)
    | none   => do
      let s' ← sv.replayOps txn.ops s
      (sv.query sparql s').mapError .query

def commit (txnId : String) (s : Store) :
    Except TransactionError CommitResult × TransactionRegistry × Store :=
  match r.txns.lookup txnId with
  | none        => (.error .notFound, r, s)
  | some active =>
    -- The transaction is taken out of the registry before anything else is tried.
    let r := { r with txns := r.txns.erase txnId }
    match s.transact (am.faults .write) .storage (sv.replayOps active.ops) with
    | (.error e, s') => (.error e, r, s')
    | (.ok (), s')   => (.ok { txnId, ops := active.ops }, r, s')

def rollback (txnId : String) : Except TransactionError Unit × TransactionRegistry :=
  match r.txns.lookup txnId with
  | none   => (.error .notFound, r)
  | some _ => (.ok (), { r with txns := r.txns.erase txnId })

-- `entry.last_active.elapsed() > self.timeout`
def isExpired (now : ℕ) (txnId : String) : Bool :=
  match r.txns.lookup txnId with
  | none     => false
  | some txn => now - txn.lastActive > r.timeout

def discard (txnId : String) : TransactionRegistry :=
  { r with txns := r.txns.erase txnId }

-- The first loop goes over the transactions in the order `txnIds`. Other calls may come in between
-- the steps of both loops.
def cleanupExpired (now : ℕ) (txnIds : List String) : ℕ × TransactionRegistry :=
  let expired := txnIds.filter (r.isExpired now)
  (expired.length, expired.foldl discard r)

end TransactionRegistry
