import OxigraphCloud.Storage.RocksDb.Theorems.Readable

-- Transactions that run at the same time. RocksDB does not look for conflicts between them.

namespace RocksDb

namespace StorageTransaction

variable {enc : Encoder} {db : Db} {D : Dataset}

def applyAll (enc : Encoder) (ops : List WriteOp) (batch : WriteBatch) : WriteBatch :=
  ops.foldl (fun batch op => apply enc op batch) batch

theorem applyAll_coherent {batch : WriteBatch} {δ : DatasetDelta} (h : batch.delta.Coherent δ)
    (ops : List WriteOp) : ∃ δ', (applyAll enc ops batch).delta.Coherent δ' ∧
      ∀ D, δ'.patch D = WriteOp.kvMeanings enc ops (δ.patch D) := by
  induction ops generalizing batch δ
  case nil => exact ⟨δ, h, fun _ => rfl⟩
  case cons op ops hi =>
    obtain ⟨δ₁, h₁, hp₁⟩ := apply_coherent op h
    obtain ⟨δ', h', hp⟩ := hi h₁
    exact ⟨δ', h', fun D => by rw [hp, hp₁]; rfl⟩

-- What is stored when a write-only transaction is committed.
theorem commit_meaning (ops : List WriteOp) (h : (tables db).Stores D) :
    (tables (db.write (applyAll enc ops []))).Stores (WriteOp.kvMeanings enc ops D) := by
  have h₀ : (WriteBatch.delta []).Coherent .none := .none
  obtain ⟨δ, hc, hp⟩ : ∃ δ, (applyAll enc ops []).delta.Coherent δ ∧ _ := applyAll_coherent h₀ ops
  have hp : δ.patch D = _ := hp D
  rw [DatasetDelta.patch_none] at hp
  rw [WriteBatch.tables_write, ← hp]
  exact h.patch hc

end StorageTransaction

-- The states of the database so far, the last one first. A readable transaction has been started on
-- one of them.
inductive Reachable (enc : Encoder) : List Db → Prop
  | empty : Reachable enc [fun _ => ∅]
  | write (ops : List WriteOp) : (Reachable enc (db :: dbs)) →
      Reachable enc (db.write (StorageTransaction.applyAll enc ops []) :: db :: dbs)
  | readable {ops : List ReadableOp} : (Reachable enc (db :: dbs)) → (snapshot ∈ db :: dbs) →
      (((ReadableTransaction.backend enc).applyAll ops).Evaluates ⟨snapshot, []⟩ r t) →
      Reachable enc (db.write t.batch :: db :: dbs)

-- A readable transaction makes the change that it has prepared for its snapshot.
theorem ReadableTransaction.commit_change {snapshot : Db} {ops : List ReadableOp}
    {t : ReadableTransaction} {D D' : Dataset} (hs : (tables snapshot).Stores D)
    (h : (tables db).Stores D')
    (he : ((backend enc).applyAll ops).Evaluates ⟨snapshot, []⟩ r t) :
    ∃ δ : DatasetDelta, δ.patch D = reach.run enc ops D ∧
      (tables (db.write t.batch)).Stores (δ.patch D') := by
  have hr : Running ⟨snapshot, []⟩ D .none := ⟨hs, .none⟩
  obtain ⟨δ, h', hv⟩ := (clearing enc).applyAll_evaluates hr he
  refine ⟨δ, hv, ?_⟩
  rw [WriteBatch.tables_write]
  exact h.patch h'.coherent

-- Nothing else is committed in the meantime.
theorem ReadableTransaction.commit_alone {ops : List ReadableOp} {t : ReadableTransaction}
    {D : Dataset} (h : (tables db).Stores D)
    (he : ((backend enc).applyAll ops).Evaluates ⟨db, []⟩ r t) :
    (tables (db.write t.batch)).Stores (reach.run enc ops D) := by
  obtain ⟨δ, hd, h'⟩ := commit_change h h he
  exact hd ▸ h'

-- The tables always agree with each other.
theorem reachable_stores (h : Reachable enc dbs) : ∀ db ∈ dbs, ∃ D, (tables db).Stores D := by
  induction h
  case empty =>
    intro db hm
    obtain rfl := List.mem_singleton.mp hm
    exact ⟨_, stores_empty⟩
  case write db dbs ops _ hi =>
    obtain ⟨D, h⟩ := hi db List.mem_cons_self
    exact List.forall_mem_cons.mpr ⟨⟨_, StorageTransaction.commit_meaning ops h⟩, hi⟩
  case readable db dbs snapshot r t ops _ hm he hi =>
    obtain ⟨D, hs⟩ := hi snapshot hm
    obtain ⟨D', h⟩ := hi db List.mem_cons_self
    obtain ⟨δ, -, h'⟩ := ReadableTransaction.commit_change hs h he
    exact List.forall_mem_cons.mpr ⟨⟨_, h'⟩, hi⟩

-- A quad of the graph `g`.
def sampleQuad (object : String) : Rdf.Quad where
  subject   := .namedNode "a"
  predicate := "p"
  object    := .literal (.string object)
  graphName := .namedNode "g"

def afterInsert (object : String) (db : Db) : Db :=
  db.write (StorageTransaction.applyAll .plain [.insert (sampleQuad object)] [])

theorem commit_alone_sample : ∃ t : ReadableTransaction,
    (tables (Db.write (fun _ => ∅) t.batch)).Stores
      (ReadableTransaction.reach.run .plain [.insert (sampleQuad "1"), .clear] ⟨∅, ∅⟩) :=
  ⟨_, ReadableTransaction.commit_alone stores_empty ⟨2, rfl⟩⟩

-- The readable transaction has started on the empty store.
theorem reachable_stores_sample : ∃ t : ReadableTransaction,
    ((ReadableTransaction.backend .plain).applyAll [.insert (sampleQuad "2"), .clear]).Evaluates
      ⟨fun _ => ∅, []⟩ (.ok ()) t ∧
    ∃ D, (tables ((afterInsert "1" fun _ => ∅).write t.batch)).Stores D := by
  have h : Reachable .plain [afterInsert "1" fun _ => ∅, fun _ => ∅] :=
    .write [.insert (sampleQuad "1")] .empty
  obtain ⟨t, he⟩ : ∃ t, ((ReadableTransaction.backend .plain).applyAll
      [.insert (sampleQuad "2"), .clear]).Evaluates ⟨fun _ => ∅, []⟩ (.ok ()) t := ⟨_, 2, rfl⟩
  exact ⟨t, he, reachable_stores (.readable h (.tail _ (.head _)) he) _ List.mem_cons_self⟩

end RocksDb
