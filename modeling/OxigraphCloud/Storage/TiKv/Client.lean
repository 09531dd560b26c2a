import OxigraphCloud.Primitives.Bytes
import OxigraphCloud.Primitives.Versioned
import OxigraphCloud.Storage.Layout

namespace TiKv

abbrev State := Kv Bytes Bytes

-- A call that works on a state and may fail.
abbrev Call (σ : Type) := ExceptT StorageError (StateM σ)

theorem Call.bind_apply {call : Call σ α} {f : α → Call σ β} (h : call s = (.ok a, s')) :
    (call >>= f) s = f a s' := by
  simp [bind, ExceptT.bind, ExceptT.mk, ExceptT.bindCont, StateT.bind, h]

-- `let _ = call;`
def Call.ignore (call : Call σ α) (s : σ) : σ := (call s).2

inductive ApiCall
  | put
  | delete
  | get
  | keyExists
  | scan
  | scanKeys
  | commit
  deriving DecidableEq

-- An optimistic transaction of the client library. Its reads see the state at its start together
-- with its own writes. The `n`-th call that is made on the transaction fails if `faults` has an
-- error for it.
structure Transaction where
  startTs  : ℕ
  snapshot : State
  writes   : List (Mutation Bytes Bytes)
  faults   : ApiCall → ℕ → Option String
  calls    : ℕ

namespace Transaction

def view (txn : Transaction) : State := Mutation.applyAll txn.snapshot txn.writes

def request (call : ApiCall) (answer : Transaction → α × Transaction) : Call Transaction α :=
  fun txn =>
    match txn.faults call txn.calls with
    | some error => (.error (.other error), { txn with calls := txn.calls + 1 })
    | none =>
      let (a, txn) := answer { txn with calls := txn.calls + 1 }
      (.ok a, txn)

def put (key value : Bytes) : Call Transaction Unit :=
  request .put fun txn => ((), { txn with writes := txn.writes ++ [.put key value] })

def delete (key : Bytes) : Call Transaction Unit :=
  request .delete fun txn => ((), { txn with writes := txn.writes ++ [.delete key] })

def keyExists (key : Bytes) : Call Transaction Bool :=
  request .keyExists fun txn => (key ∈ txn.view, txn)

def scan (range : BoundRange Bytes) (limit : ℕ) : Call Transaction (List (Bytes × Bytes)) :=
  request .scan fun txn => (txn.view.scan range limit, txn)

def scanKeys (range : BoundRange Bytes) (limit : ℕ) : Call Transaction (List Bytes) :=
  request .scanKeys fun txn => ((txn.view.scan range limit).map Prod.fst, txn)

-- A commit succeeds unless it fails or conflicts with a commit since the start.
def commit (txn : Transaction) (db : History Bytes Bytes) :
    Except StorageError Unit × History Bytes Bytes :=
  match txn.faults .commit txn.calls with
  | some error => (.error (.other error), db)
  | none =>
    if db.conflicts txn.startTs txn.writes then
      (.error (.other "write conflict"), db)
    else
      (.ok (), db.push txn.writes)

end Transaction

-- A new transaction on the state that is committed at `ts`.
def beginAt (db : History Bytes Bytes) (ts : ℕ) (faults : ApiCall → ℕ → Option String) :
    Transaction where
  startTs  := ts
  snapshot := db.stateAt ts
  writes   := []
  faults   := faults
  calls    := 0

def noFaults (_ : ApiCall) (_ : ℕ) : Option String := none

-- The handle through which transactions are opened. When they are opened, and what other clients
-- have committed until then, is up to the environment: `begins n` is the outcome of the `n`-th call
-- of `begin_optimistic`.
structure Storage where
  begins        : ℕ → Except StorageError Transaction
  begun         : ℕ
  scanBatchSize : ℕ

def Storage.beginOptimistic : Call Storage Transaction := fun storage =>
  (storage.begins storage.begun, { storage with begun := storage.begun + 1 })

end TiKv

def Table.byte : Table → UInt8
  | .default => 0x00
  | .id2str  => 0x01
  | .spog    => 0x02
  | .posg    => 0x03
  | .ospg    => 0x04
  | .gspo    => 0x05
  | .gpos    => 0x06
  | .gosp    => 0x07
  | .dspo    => 0x08
  | .dpos    => 0x09
  | .dosp    => 0x0A
  | .graphs  => 0x0B

namespace TiKv

def batchSize : ℕ := 100000

def u32Max : ℕ := 2 ^ 32 - 1

def prefixedKey (table : Table) (key : Bytes) : Bytes := table.byte :: key

-- Pops bytes from the end until one of them can be incremented.
def prefixUpperBound (pre : Bytes) : Option Bytes := popBound pre.reverse
where
  popBound : Bytes → Option Bytes
    | []            => none
    | last :: upper => if last < 0xFF then some (upper.reverse ++ [last + 1]) else popBound upper

def prefixRange (pre : Bytes) : BoundRange Bytes where
  start := pre
  upper := prefixUpperBound pre

-- The keys of each table in the flat key space.
def tables (kv : State) : Tables := fun table => { key | prefixedKey table key ∈ kv }

end TiKv
