import OxigraphCloud.Primitives.Bytes
import OxigraphCloud.Primitives.KeyValue
import OxigraphCloud.Storage.Layout

namespace RocksDb

-- The content of the column families, which are the tables of the layout.
abbrev Db := Table → Kv Bytes Bytes

-- The writes of a batch, in the order in which they are applied.
abbrev WriteBatch := List (Table × Mutation Bytes Bytes)

namespace WriteBatch

-- The writes to one column family.
def of (batch : WriteBatch) (columnFamily : Table) : List (Mutation Bytes Bytes) :=
  batch.filterMap fun (table, mutation) => if table = columnFamily then some mutation else none

def insert (batch : WriteBatch) (entry : Table × Bytes × Bytes) : WriteBatch :=
  batch ++ [(entry.1, .put entry.2.1 entry.2.2)]

def remove (batch : WriteBatch) (entry : Table × Bytes) : WriteBatch :=
  batch ++ [(entry.1, .delete entry.2)]

def removeRange (batch : WriteBatch) (columnFamily : Table) (startKey endKey : Bytes) :
    WriteBatch :=
  batch ++ [(columnFamily, .deleteRange startKey endKey)]

end WriteBatch

-- A batch is written as a whole. There is no check for conflicts with other writes.
def Db.write (db : Db) (batch : WriteBatch) : Db := fun columnFamily =>
  Mutation.applyAll (db columnFamily) (batch.of columnFamily)

-- Increments the last byte which can be incremented. The bytes behind it stay as they are.
def upperBound (pre : Bytes) : Option Bytes := (increment pre.reverse).map List.reverse
where
  increment : Bytes → Option Bytes
    | []         => none
    | c :: bound => if c < 0xFF then some ((c + 1) :: bound) else (increment bound).map (c :: ·)

def prefixRange (pre : Bytes) : BoundRange Bytes where
  start := pre
  upper := upperBound pre

-- The reader of a snapshot has no batch. The reader of a readable transaction has the batch of the
-- latter.
structure Reader where
  snapshot : Db
  batch    : WriteBatch

namespace Reader

variable (r : Reader)

def view : Db := r.snapshot.write r.batch

-- The keys that the iterator runs through.
def scanPrefix (columnFamily : Table) (pre : Bytes) : List Bytes :=
  (r.view columnFamily).keysIn (prefixRange pre)

def iter (columnFamily : Table) : List Bytes := r.scanPrefix columnFamily []

end Reader

end RocksDb
