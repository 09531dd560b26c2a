import OxigraphCloud.Storage.Memory.Transaction

-- Readers look at the content while a transaction changes it, and while it is committed or dropped.

namespace Memory

-- What has become of the transaction that holds the lock. Its end is a loop over its log, of which
-- `rest` is left.
inductive Phase
  | idle (storage : MemoryStorage)
  | running (t : MemoryStorageTransaction)
  | committing (t : MemoryStorageTransaction) (rest : List LogEntry)
  | dropping (t : MemoryStorageTransaction) (rest : List LogEntry)

def Phase.storage : Phase → MemoryStorage
  | idle storage   => storage
  | running t      => t.storage
  | committing t _ => t.storage
  | dropping t _   => t.storage

inductive Step (enc : Encoder) : Phase → Phase → Prop
  | start : Step enc (.idle storage) (.running storage.startTransaction)
  | apply (op : ReadableOp) : Step enc (.running t) (.running (t.apply enc op))
  | commit : Step enc (.running t) (.committing t t.log)
  | upgrade : Step enc (.committing t (entry :: rest))
      (.committing { t with storage := t.upgradeEntry t.storage entry } rest)
  | publish : Step enc (.committing t []) (.idle (t.publish t.storage))
  | drop : Step enc (.running t) (.dropping t t.log)
  | rollback : Step enc (.dropping t (entry :: rest))
      (.dropping { t with storage := t.rollbackEntry t.storage entry } rest)
  | dropped : Step enc (.dropping t []) (.idle t.storage)

abbrev Steps (enc : Encoder) : Phase → Phase → Prop := Relation.ReflTransGen (Step enc)

end Memory
