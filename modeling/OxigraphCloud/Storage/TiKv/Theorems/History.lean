import OxigraphCloud.Storage.TiKv.Theorems.Transaction

namespace TiKv

-- The committed states of a store hold the datasets `Ds`.
def Versions (db : History Bytes Bytes) (Ds : ℕ → Dataset) : Prop :=
  ∀ n, (tables (db.stateAt n)).Stores (Ds n)

theorem stores_empty : (tables ∅).Stores ⟨∅, ∅⟩ := by
  constructor <;> try simp [tables]
  exact ⟨by simp, by simp, by simp [tables]⟩

theorem Versions.empty : Versions ⟨∅, []⟩ fun _ => ⟨∅, ∅⟩ := by
  intro n
  simpa [History.stateAt, Mutation.applyAll] using stores_empty

variable {db db' : History Bytes Bytes} {Ds : ℕ → Dataset} {δ : DatasetDelta} {txn : Transaction}

theorem Versions.pending (h : Versions db Ds) (ts : ℕ) :
    (beginAt db ts noFaults).Pending (Ds ts) .none :=
  ⟨rfl, h ts, .none⟩

-- The datasets after one more commit.
def nextVersions (db : History Bytes Bytes) (Ds : ℕ → Dataset) (δ : DatasetDelta) (n : ℕ) :
    Dataset :=
  if n ≤ db.now then Ds n else δ.patch (Ds db.now)

-- What a transaction writes has the same meaning for the state on which it is committed as for the
-- state on which it started.
theorem Versions.push (h : Versions db Ds) (hc : (writesDelta ws).Coherent δ) :
    Versions (db.push ws) (nextVersions db Ds δ) := by
  intro n
  by_cases hn : n ≤ db.now
  case pos =>
    rw [History.stateAt_push hn, nextVersions, if_pos hn]
    exact h n
  case neg =>
    have hl : (db.push ws).now ≤ n := by
      simpa [History.now_push] using Nat.lt_of_not_le hn
    rw [History.stateAt_of_now_le hl, History.current_push, tables_applyAll, nextVersions,
      if_neg hn]
    exact (h db.now).patch hc

theorem Transaction.commit_of_now (hf : txn.faults = noFaults) (hn : txn.startTs = db.now) :
    txn.commit db = (.ok (), db.push txn.writes) := by
  have hs : db.since db.now = [] := by simp [History.since, History.now]
  simp [commit, hf, noFaults, History.conflicts, hn, hs]

-- A client that has committed a single operation.
def commitOp (enc : Encoder) (op : WriteOp) (db : History Bytes Bytes) : History Bytes Bytes :=
  (StorageTransaction.apply enc op (beginAt db db.now noFaults)).commit db |>.2

section CommitOp

variable {txn txn' : Transaction} (hs : txn.startTs = db.now) (hf : txn.faults = noFaults)
  (hw : txn.Writes ws txn')

include hs hf hw

theorem Transaction.Writes.commit_of_now : txn'.commit db = (.ok (), db.push txn'.writes) := by
  refine Transaction.commit_of_now (hw.faults.trans hf) ?_
  have ⟨_, hw⟩ := hw
  rw [hw, hs]

theorem Versions.commit (h : Versions db Ds) (hp : txn'.Pending D δ) :
    Versions (txn'.commit db).2 (nextVersions db Ds δ) :=
  hw.commit_of_now hs hf ▸ h.push hp.coherent

end CommitOp

theorem Versions.commit_insert (h : Versions db Ds) : Versions (commitOp enc (.insert quad) db)
    (nextVersions db Ds ((DatasetDelta.insert (enc.encodeQuad quad).canonical).comp .none)) :=
  h.commit rfl rfl (Transaction.putEntries_writes rfl) (h.pending db.now).insert

theorem Versions.commit_remove (h : Versions db Ds) : Versions (commitOp enc (.remove quad) db)
    (nextVersions db Ds ((DatasetDelta.remove (enc.encodeQuad quad).canonical).comp .none)) :=
  h.commit rfl rfl (Transaction.deleteKeys_writes rfl) <|
    (h.pending db.now).removeEncoded (enc.isQuad_encodeQuad quad)

theorem now_commit_insert : (commitOp enc (.insert quad) db).now = db.now + 1 := by
  have hw : (beginAt db db.now noFaults).Writes _ (StorageTransaction.apply enc (.insert quad) _) :=
    Transaction.putEntries_writes rfl
  rw [commitOp, hw.commit_of_now rfl rfl, History.now_push]

-- The handle of a client whose `n`-th transaction starts at `opened n`.
def Storage.openedAt (db : History Bytes Bytes) (opened : ℕ → ℕ) (scanBatchSize : ℕ) : Storage where
  begins n      := .ok (beginAt db (opened n) noFaults)
  begun         := 0
  scanBatchSize := scanBatchSize

theorem Storage.openedAt_serves {size : ℕ} :
    (openedAt db opened size).Serves fun n => db.stateAt (opened n) :=
  fun n => ⟨beginAt db (opened n) noFaults, rfl, rfl, rfl⟩

end TiKv
