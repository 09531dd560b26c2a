import OxigraphCloud.Server.Theorems.Store
import OxigraphCloud.Sparql.Theorems.DeleteInsert
import OxigraphCloud.Storage.Memory.Theorems.Isolation
import OxigraphCloud.Storage.RocksDb.Theorems.Interleaving
import OxigraphCloud.Storage.TiKv.Theorems.Registration

-- What the backends make of the same write-only transactions, one after the other.

namespace WriteOp

variable {enc : Encoder}

-- The operation of the memory backend.
def readable : WriteOp → ReadableOp
  | insert quad                => .insert quad
  | insertNamedGraph graphName => .insertNamedGraph graphName
  | remove quad                => .remove quad
  | clearDefaultGraph          => .clearGraph .defaultGraph
  | clearAllNamedGraphs        => .clearAllNamedGraphs
  | clearAllGraphs             => .clearAllGraphs
  | removeAllNamedGraphs       => .removeAllNamedGraphs
  | clear                      => .clear

-- The operation means the same to all backends. The key-value backends do not tell a timezone that
-- is a minute behind UTC from a missing one, and they drop the named graphs with all graphs.
def Uniform (enc : Encoder) : WriteOp → Prop
  | insert quad | remove quad => (enc.encodeQuad quad).canonical = enc.encodeQuad quad
  | clearAllGraphs            => False
  | _                         => True

theorem Uniform.kvMeaning_eq {op : WriteOp} (h : op.Uniform enc) (D : Dataset) :
    op.kvMeaning enc D = op.readable.meaning enc id D := by
  cases op
  case insert => exact congrArg D.insert h
  case remove => exact congrArg D.remove h
  case clearAllGraphs => contradiction
  all_goals rfl

theorem kvMeanings_eq {ops : List WriteOp} (h : ∀ op ∈ ops, op.Uniform enc) (D : Dataset) :
    kvMeanings enc ops D = ReadableOp.meanings enc (ops.map readable) D := by
  induction ops generalizing D
  case nil => rfl
  case cons op ops hi =>
    obtain ⟨ho, h⟩ := List.forall_mem_cons.mp h
    exact (congrArg (kvMeanings enc ops) (ho.kvMeaning_eq D)).trans (hi h _)

end WriteOp

-- The state of each of the backends. All of them have been through the same transactions.
structure Backends where
  memory  : Memory.MemoryStorage
  rocksDb : RocksDb.Db
  tiKv    : History Bytes Bytes

namespace Backends

def empty : Backends := ⟨.new, fun _ => ∅, ⟨∅, []⟩⟩

def commit (enc : Encoder) (b : Backends) (ops : List WriteOp) : Backends where
  memory  := b.memory.transact enc (ops.map WriteOp.readable, true)
  rocksDb := b.rocksDb.write (RocksDb.StorageTransaction.applyAll enc ops [])
  tiKv    := b.tiKv.push (TiKv.StorageTransaction.applyAll enc ops
    (TiKv.beginAt b.tiKv b.tiKv.now TiKv.noFaults)).writes

-- What a reader of the last version finds.
def dataset (b : Backends) : Dataset :=
  Memory.MemoryStorageReader.dataset ⟨b.memory.versionCounter⟩ b.memory.content

-- The transaction is made of operations that mean the same to all backends, and the scans of TiKV
-- are complete.
structure Accepts (enc : Encoder) (b : Backends) (ops : List WriteOp) : Prop where
  uniform   : ∀ op ∈ ops, op.Uniform enc
  scannable : TiKv.StorageTransaction.Scannable enc ops
    (TiKv.beginAt b.tiKv b.tiKv.now TiKv.noFaults)

-- All backends hold the same dataset.
structure Agree (enc : Encoder) (b : Backends) (Ds : List Dataset) (Ds' : ℕ → Dataset) : Prop where
  memory  : b.memory.Represents enc Ds
  rocksDb : (RocksDb.tables b.rocksDb).Stores (Ds.getLastD ⟨∅, ∅⟩)
  tiKv    : TiKv.Versions b.tiKv Ds'
  last    : Ds' b.tiKv.now = Ds.getLastD ⟨∅, ∅⟩

variable {enc : Encoder} {b : Backends}

theorem Agree.commit {ops : List WriteOp} (h : b.Agree enc Ds Ds') (ha : b.Accepts enc ops) :
    ∃ Ds Ds', (b.commit enc ops).Agree enc Ds Ds' := by
  have hm := WriteOp.kvMeanings_eq ha.uniform (Ds.getLastD ⟨∅, ∅⟩)
  obtain ⟨δ, hp, hd, -⟩ := TiKv.StorageTransaction.applyAll_pending (h.tiKv.pending _) ha.scannable
  refine ⟨_, _, h.memory.transact (ops.map WriteOp.readable, true), ?_, h.tiKv.push hp.coherent, ?_⟩
  all_goals
    simp only [Memory.MemoryStorage.nextVersions, if_true, List.getLastD_concat, ← hm]
  · exact RocksDb.StorageTransaction.commit_meaning ops h.rocksDb
  · simp only [Backends.commit, TiKv.nextVersions, History.now_push]
    rw [if_neg (by omega), hd, DatasetDelta.patch_none, h.last]

-- RocksDB and TiKV have the quads and the named graphs of the memory backend.
theorem agree_run {txns : List (List WriteOp)}
    (ha : Run.Along (commit enc) (Accepts enc) .empty txns) :
    let b := Run.run (commit enc) .empty txns
    (RocksDb.tables b.rocksDb).Stores b.dataset ∧
      (TiKv.tables b.tiKv.current).Stores b.dataset := by
  intro b
  have h₀ : ∃ Ds Ds', empty.Agree enc Ds Ds' :=
    ⟨_, _, Memory.MemoryStorage.represents_new, RocksDb.stores_empty, .empty, rfl⟩
  obtain ⟨Ds, Ds', h⟩ : ∃ Ds Ds', b.Agree enc Ds Ds' := by
    refine Run.invariant (I := fun b => ∃ Ds Ds', b.Agree enc Ds Ds') h₀ ha ?_
    rintro b ops ⟨Ds, Ds', h⟩ ha
    exact h.commit ha
  have hd : b.dataset = Ds.getLastD ⟨∅, ∅⟩ :=
    (Memory.MemoryStorageReader.dataset_eq h.memory.valid.sorted).trans h.memory.seen_last
  rw [hd]
  exact ⟨h.rocksDb, h.last ▸ h.tiKv b.tiKv.now⟩

-- A quad is inserted into a graph, and another graph is added. Then the quad is removed.
def sampleTransactions : List (List WriteOp) :=
  [[.insert TiKv.sampleQuad, .insertNamedGraph (.blankNode (.anonymous 1))],
    [.remove TiKv.sampleQuad]]

theorem agree_run_sample :
    let b := Run.run (commit .plain) .empty sampleTransactions
    (RocksDb.tables b.rocksDb).Stores b.dataset ∧
      (TiKv.tables b.tiKv.current).Stores b.dataset := by
  refine agree_run ⟨⟨?_, ?_, ?_, trivial⟩, ⟨?_, ?_, trivial⟩, trivial⟩
  · exact List.forall_mem_cons.mpr ⟨rfl, List.forall_mem_singleton.mpr trivial⟩
  · exact TiKv.fits_view rfl (by decide)
  · exact TiKv.fits_view rfl (by decide)
  · exact List.forall_mem_singleton.mpr rfl
  · exact TiKv.fits_view rfl (by decide)

end Backends

namespace Store

variable {enc : Encoder} {s : Store} {writes : List (Rdf.Quad × Bool)}

-- A quad is inserted or removed.
def write (s : Store) : Rdf.Quad × Bool → Store
  | (quad, true)  => s.insert quad
  | (quad, false) => s.remove quad

def writeOp : Rdf.Quad × Bool → WriteOp
  | (quad, true)  => .insert quad
  | (quad, false) => .remove quad

-- The quads of the store and those that are written have different encodings.
def Distinct (enc : Encoder) (s : Store) (writes : List (Rdf.Quad × Bool)) : Prop :=
  Set.InjOn (fun quad => (enc.encodeQuad quad).canonical)
    { quad | quad ∈ s.quads ∨ quad ∈ writes.map Prod.fst }

theorem toDataset_writes (hi : s.Distinct enc writes) :
    WriteOp.kvMeanings enc (writes.map writeOp) (s.toDataset enc) =
      (Run.run write s writes).toDataset enc := by
  induction writes generalizing s
  case nil => rfl
  case cons w writes hw =>
    have hs : (writeOp w).kvMeaning enc (s.toDataset enc) = (s.write w).toDataset enc := by
      rcases w with ⟨quad, _ | _⟩
      case false => exact (toDataset_remove enc fun q hq => hi (.inl hq) (.inr (.head _))).symm
      case true => exact (toDataset_insert enc).symm
    refine (congrArg (WriteOp.kvMeanings enc (writes.map writeOp)) hs).trans (hw (hi.mono ?_))
    rintro q (hq | hq)
    case inr => exact .inr (.tail _ hq)
    case inl =>
      rcases w with ⟨quad, _ | _⟩
      case false => exact .inl (Finset.mem_of_mem_erase hq)
      case true =>
        obtain rfl | hq := Finset.mem_insert.mp hq
        · exact .inr (.head _)
        · exact .inl hq

-- What the server sees of its store is what RocksDB has stored.
theorem writes_stored {db : RocksDb.Db} (h : (RocksDb.tables db).Stores (s.toDataset enc))
    (hi : s.Distinct enc writes) :
    (RocksDb.tables (db.write (RocksDb.StorageTransaction.applyAll enc
      (writes.map writeOp) []))).Stores ((Run.run write s writes).toDataset enc) :=
  toDataset_writes hi ▸ RocksDb.StorageTransaction.commit_meaning _ h

theorem writes_stored_sample :
    let writes := [(RocksDb.sampleQuad "1", true), (RocksDb.sampleQuad "2", true),
      (RocksDb.sampleQuad "1", false)]
    (RocksDb.tables (RocksDb.Db.write (fun _ => ∅) (RocksDb.StorageTransaction.applyAll .plain
      (writes.map writeOp) []))).Stores ((Run.run write .empty writes).toDataset .plain) := by
  intro writes
  have h : (RocksDb.tables fun _ => ∅).Stores (Store.empty.toDataset .plain) := by
    simpa [toDataset, empty] using RocksDb.stores_empty
  have hi : Store.empty.Distinct .plain writes := by
    rintro q (hq | hq) q' (hq' | hq') he
    all_goals simp [empty, writes] at hq hq'
    rcases hq with rfl | rfl | rfl <;> rcases hq' with rfl | rfl | rfl
    all_goals first | rfl | exact absurd he (by decide)
  exact writes_stored h hi

end Store

-- The edge that the first solution turns around is removed by the second one.
theorem Sparql.evalDeleteInsert_refines_sample :
    let solutions := [.ok (swapRow 1 2), .ok (swapRow 2 1)]
    let result := (RocksDb.ReadableTransaction.backend .plain).target.evalDeleteInsert swapDelete
      swapInsert solutions ⟨fun _ => ∅, []⟩
    let result' := (Dataset.target .plain).evalDeleteInsert swapDelete swapInsert solutions ⟨∅, ∅⟩
    result.1 = result'.1 ∧
      ∃ δ, RocksDb.ReadableTransaction.Running result.2 ⟨∅, ∅⟩ δ ∧ δ.patch ⟨∅, ∅⟩ = result'.2 := by
  have h : RocksDb.ReadableTransaction.Running ⟨fun _ => ∅, []⟩ ⟨∅, ∅⟩ .none :=
    ⟨RocksDb.stores_empty, .none⟩
  have hp : (RocksDb.ReadableTransaction.reading ⟨∅, ∅⟩).view .none = ⟨∅, ∅⟩ :=
    DatasetDelta.patch_none
  generalize [Except.ok (swapRow 1 2), .ok (swapRow 2 1)] = solutions
  have hr := @evalDeleteInsert_refines swapDelete swapInsert _ _ _ _ _ solutions
    (RocksDb.ReadableTransaction.lawful .plain) h
  rw [hp] at hr
  exact hr
