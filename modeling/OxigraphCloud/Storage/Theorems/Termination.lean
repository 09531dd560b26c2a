import OxigraphCloud.Storage.RocksDb.Theorems.Interleaving
import OxigraphCloud.Storage.TiKv.Theorems.Readable

-- When the loops of the readable transactions come to an end.

namespace ReadableBackend

variable {τ : Type} {b : ReadableBackend τ} {m : Reading τ} {reach : Reach} {t t' : τ}

theorem Clearing.terminates_iff_after {ops : List ReadableOp} {op : ReadableOp}
    (hc : b.Clearing m reach) (h : m.holds t .none) (he : (b.applyAll ops).Evaluates t r t') :
    (b.apply op).Terminates t' ↔
      reach.Halts b.encoder b.batchSize op (reach.run b.encoder ops m.dataset) := by
  obtain ⟨δ, h', hv⟩ := hc.applyAll_evaluates h he
  rw [hc.apply_terminates_iff h', hv]

end ReadableBackend

-- The loops of TiKV do not see what the transaction has removed, and those over all named graphs do
-- not end in both backends if there are too many graph names.
theorem loops_terminate_iff (enc : Encoder) (D : Dataset) (ops : List ReadableOp)
    (op : ReadableOp) :
    (∀ {t t' : TiKv.ReadableTransaction},
      t.Running (fun _ => t.txn.snapshot) (fun _ => D.quads) D .none →
      ((TiKv.ReadableTransaction.backend enc).applyAll ops).Evaluates t (.ok ()) t' →
      let reach := TiKv.ReadableTransaction.reach D.quads
      (((TiKv.ReadableTransaction.backend enc).apply op).Terminates t' ↔
        reach.Halts enc TiKv.batchSize op (reach.run enc ops D))) ∧
    (∀ {t t' : RocksDb.ReadableTransaction}, t.Running D .none →
      ((RocksDb.ReadableTransaction.backend enc).applyAll ops).Evaluates t (.ok ()) t' →
      let reach := RocksDb.ReadableTransaction.reach
      (((RocksDb.ReadableTransaction.backend enc).apply op).Terminates t' ↔
        reach.Halts enc RocksDb.batchSize op (reach.run enc ops D))) :=
  ⟨fun h he => (TiKv.ReadableTransaction.clearing enc).terminates_iff_after h he,
    fun h he => (RocksDb.ReadableTransaction.clearing enc).terminates_iff_after h he⟩

-- Any number of quads in the default graph, and any number of names of graphs.
def numberedNode (n : ℕ) : Rdf.NamedOrBlankNode := .blankNode (.anonymous (.ofNat 128 n))

def numberedQuad (n : ℕ) : Rdf.Quad := ⟨numberedNode n, "p", .namedNode "o", .defaultGraph⟩

def numberedName (n : ℕ) : EncodedTerm := Encoder.plain.encodeNamedOrBlankNode (numberedNode n)

def numberedEncoded (n : ℕ) : EncodedQuad := (Encoder.plain.encodeQuad (numberedQuad n)).canonical

def numberedDataset (n m : ℕ) : Dataset where
  quads       := Set.image numberedEncoded (Set.Iio n)
  namedGraphs := Set.image numberedName (Set.Iio m)

theorem Set.image_Iio_succ {f : ℕ → α} :
    Insert.insert (f n) (Set.image f (Set.Iio n)) = Set.image f (Set.Iio (n + 1)) := by
  rw [← Set.image_insert_eq, ← Order.Iio_succ_eq_insert]
  rfl

theorem numberedDataset_zero : numberedDataset 0 0 = ⟨∅, ∅⟩ := by
  simp [numberedDataset]

theorem numberedDataset_insert :
    (numberedDataset n 0).insert (numberedEncoded n) = numberedDataset (n + 1) 0 := by
  simp only [numberedDataset, Dataset.insert, Set.image_Iio_succ, Dataset.mk.injEq, true_and]
  exact if_pos rfl

theorem numberedDataset_insertNamedGraph :
    (numberedDataset n m).insertNamedGraph (numberedName m) = numberedDataset n (m + 1) := by
  simp only [numberedDataset, Dataset.insertNamedGraph, Set.image_Iio_succ]

theorem numberedName_injOn : Set.InjOn numberedName (Set.Iio (2 ^ 128)) := by
  intro n hn m hm h
  have h := congrArg (Bytes.toBitVec 16 ·.toList) (EncodedTerm.numericalBlankNode.inj h)
  simp only [List.Vector.toList_mk, Bytes.toBitVec_ofBitVec] at h
  have h := congrArg BitVec.toNat h
  rwa [BitVec.toNat_ofNat, BitVec.toNat_ofNat, Nat.mod_eq_of_lt hn, Nat.mod_eq_of_lt hm] at h

theorem numberedEncoded_injOn : Set.InjOn numberedEncoded (Set.Iio (2 ^ 128)) :=
  fun _ hn _ hm h => numberedName_injOn hn hm (congrArg EncodedQuad.subject h)

theorem ncard_image_Iio {f : ℕ → α} (hf : Set.InjOn f (Set.Iio k)) (h : n ≤ k) :
    (Set.image f (Set.Iio n)).ncard = n := by
  rw [(hf.mono <| Set.Iio_subset_Iio h).ncard_image, Set.ncard_Iio_nat]

theorem ncard_numberedDataset (hn : n ≤ 2 ^ 128) :
    (quadsOf (numberedDataset n m).quads .defaultGraph).ncard = n := by
  refine (congrArg Set.ncard ?_).trans (ncard_image_Iio numberedEncoded_injOn hn)
  refine Set.sep_eq_self_iff_mem_true.mpr ?_
  rintro _ ⟨k, -, rfl⟩
  rfl

theorem quadsOf_numberedName : quadsOf (numberedDataset n m).quads (numberedName k) = ∅ := by
  refine Set.sep_eq_empty_iff_mem_false.mpr ?_
  rintro _ ⟨l, -, rfl⟩
  nofun

def numberedNames (m : ℕ) : List ReadableOp :=
  (List.range m).map fun k => .insertNamedGraph (numberedNode k)

theorem Reach.run_numberedNames (reach : Reach) : reach.run .plain (numberedNames m)
    (numberedDataset n 0) = numberedDataset n m := by
  induction m
  case zero => rfl
  case succ m hi =>
    rw [run, numberedNames] at hi ⊢
    rw [List.range_succ, List.map_append, List.foldl_append, hi]
    exact numberedDataset_insertNamedGraph

theorem ReadableBackend.applyAll_numberedNames {τ : Type} (b : ReadableBackend τ) (m : ℕ) (t : τ) :
    (b.applyAll (numberedNames m)).Evaluates t (.ok ())
      ((List.range m).foldl (fun t k => b.insertNamedGraph (numberedNode k) t) t) := by
  rw [numberedNames]
  induction List.range m generalizing t
  case nil => exact Proc.evaluates_pure.mpr ⟨rfl, rfl⟩
  case cons hi => exact .bind (Proc.evaluates_modify.mpr ⟨rfl, rfl⟩) (hi _)

namespace TiKv

def numberedHistory : ℕ → History Bytes Bytes
  | 0     => ⟨∅, []⟩
  | n + 1 => commitOp .plain (.insert (numberedQuad n)) (numberedHistory n)

theorem versions_numberedHistory (n : ℕ) : ∃ Ds, Versions (numberedHistory n) Ds ∧
    Ds (numberedHistory n).now = numberedDataset n 0 := by
  induction n
  case zero => exact ⟨_, .empty, numberedDataset_zero.symm⟩
  case succ n hi =>
    obtain ⟨Ds, h, hD⟩ := hi
    refine ⟨_, h.commit_insert, ?_⟩
    rw [numberedHistory, now_commit_insert, nextVersions, if_neg (Nat.not_succ_le_self _),
      DatasetDelta.patch_comp, DatasetDelta.patch_none, DatasetDelta.patch_insert, hD]
    exact numberedDataset_insert

def numberedTransaction (n : ℕ) : ReadableTransaction where
  txn     := beginAt (numberedHistory n) (numberedHistory n).now noFaults
  storage := .openedAt (numberedHistory n) (fun _ => (numberedHistory n).now) 1

theorem running_numberedTransaction (n : ℕ) : (numberedTransaction n).Running
    (fun _ => (numberedTransaction n).txn.snapshot) (fun _ => (numberedDataset n 0).quads)
    (numberedDataset n 0) .none := by
  obtain ⟨Ds, h, hD⟩ := versions_numberedHistory n
  exact ⟨Storage.openedAt_serves, fun _ => hD ▸ (h _).toIndexes,
    ⟨Nat.one_pos, Nat.one_lt_two_pow (by decide)⟩, hD ▸ h.pending _⟩

theorem halts_numberedDataset (hn : n ≤ 2 ^ 128) (hm : m ≤ 2 ^ 128) :
    (ReadableTransaction.reach (numberedDataset n 0).quads).Halts .plain batchSize .clearAllGraphs
      (numberedDataset n m) ↔ m < batchSize ∧ n < batchSize := by
  have hg : (numberedDataset n m).namedGraphs.ncard = m := ncard_image_Iio numberedName_injOn hm
  rw [Reach.Halts, hg]
  simp only [ReadableTransaction.reach, ncard_numberedDataset hn]
  refine and_congr_right fun _ => and_iff_right ?_
  rintro _ ⟨k, -, rfl⟩
  rw [quadsOf_numberedName, Set.ncard_empty]
  decide

end TiKv

namespace RocksDb

def numberedTransaction (n : ℕ) : ReadableTransaction where
  snapshot := Db.write (fun _ => ∅) <|
    StorageTransaction.applyAll .plain ((List.range n).map (.insert <| numberedQuad ·)) []
  batch    := []

theorem running_numberedTransaction (n : ℕ) :
    (numberedTransaction n).Running (numberedDataset n 0) .none := by
  have hm : WriteOp.kvMeanings .plain ((List.range n).map (.insert <| numberedQuad ·)) ⟨∅, ∅⟩ =
      numberedDataset n 0 := by
    induction n
    case zero => exact numberedDataset_zero.symm
    case succ n hi =>
      rw [WriteOp.kvMeanings] at hi ⊢
      rw [List.range_succ, List.map_append, List.foldl_append, hi]
      exact numberedDataset_insert
  exact ⟨hm ▸ StorageTransaction.commit_meaning _ stores_empty, .none⟩

theorem halts_numberedDataset (hm : m ≤ 2 ^ 128) :
    ReadableTransaction.reach.Halts .plain batchSize .clearAllGraphs (numberedDataset n m) ↔
      m < batchSize := by
  have hg : (numberedDataset n m).namedGraphs.ncard = m := ncard_image_Iio numberedName_injOn hm
  rw [Reach.Halts, hg]
  simp [ReadableTransaction.reach]

end RocksDb

-- Too many quads are only a problem for TiKV, and too many names for both.
theorem loops_terminate_sample :
    let tiKv := TiKv.ReadableTransaction.backend .plain
    let rocksDb := RocksDb.ReadableTransaction.backend .plain
    let names {τ : Type} (b : ReadableBackend τ) (m : ℕ) (t : τ) :=
      (List.range m).foldl (fun t k => b.insertNamedGraph (numberedNode k) t) t
    (tiKv.apply .clearAllGraphs).Terminates (names tiKv 1 (TiKv.numberedTransaction 2)) ∧
    ¬(tiKv.apply .clearAllGraphs).Terminates (names tiKv 1 (TiKv.numberedTransaction 100000)) ∧
    ¬(tiKv.apply .clearAllGraphs).Terminates (names tiKv 100000 (TiKv.numberedTransaction 2)) ∧
    (rocksDb.apply .clearAllGraphs).Terminates
      (names rocksDb 1 (RocksDb.numberedTransaction 100000)) ∧
    ¬(rocksDb.apply .clearAllGraphs).Terminates
      (names rocksDb 100000 (RocksDb.numberedTransaction 2)) := by
  intro tiKv rocksDb names
  have hT (n m : ℕ) (hn : n ≤ 2 ^ 128) (hm : m ≤ 2 ^ 128) :
      (tiKv.apply .clearAllGraphs).Terminates (names tiKv m (TiKv.numberedTransaction n)) ↔
        m < TiKv.batchSize ∧ n < TiKv.batchSize := by
    refine ((loops_terminate_iff .plain (numberedDataset n 0) (numberedNames m) .clearAllGraphs).1
      (TiKv.running_numberedTransaction n) (tiKv.applyAll_numberedNames m _)).trans ?_
    rw [Reach.run_numberedNames, TiKv.halts_numberedDataset hn hm]
  have hR (n m : ℕ) (hm : m ≤ 2 ^ 128) :
      (rocksDb.apply .clearAllGraphs).Terminates
        (names rocksDb m (RocksDb.numberedTransaction n)) ↔ m < RocksDb.batchSize := by
    refine ((loops_terminate_iff .plain (numberedDataset n 0) (numberedNames m) .clearAllGraphs).2
      (RocksDb.running_numberedTransaction n) (rocksDb.applyAll_numberedNames m _)).trans ?_
    rw [Reach.run_numberedNames, RocksDb.halts_numberedDataset hm]
  rw [hT 2 1, hT 100000 1, hT 2 100000, hR 100000 1, hR 2 100000] <;> decide
