import OxigraphCloud.Storage.Memory.Interleaving
import OxigraphCloud.Storage.Memory.Theorems.Operations

-- What a reader finds is what was committed at its version, whatever transactions do meanwhile.

namespace Memory

-- The end of a transaction changes ranges, which a reader of the last version does not see.
theorem MemoryStorage.Sound.modify {s : MemoryStorage} {f : VersionRange → VersionRange}
    (h : s.Sound enc)
    (he : Toggles.seen (s.content.modify f entry).history s.versionCounter =
      Toggles.seen s.content.history s.versionCounter) :
    { s with content := s.content.modify f entry }.Sound enc where
  wellFormed := h.wellFormed.extends .modify
  graphNames := by
    rw [Content.graphNames_modify]
    exact h.graphNames
  committed  := he ▸ h.committed

namespace Phase

variable {p p' p'' : Phase} {enc : Encoder}

abbrev history (p : Phase) : LogEntry → List ℕ := p.storage.content.history

def Valid (enc : Encoder) (p : Phase) : Prop :=
  p.storage.Sound enc ∧
  match p with
  | idle s            => s.versionCounter < s.transactionCounter ∧
    ∀ e, Toggles.Settled s.versionCounter (s.content.history e)
  | running t         => t.Sound enc
  | committing t rest => t.Numbered ∧ t.dataset.Proper ∧
    Toggles.Upgrading t.snapshotId t.transactionId rest t.history
  | dropping t rest   => t.Numbered ∧ Toggles.Running t.snapshotId t.transactionId rest t.history

theorem Valid.sorted (h : p.Valid enc) (e : LogEntry) : (p.history e).Pairwise (· < ·) := by
  cases p
  case idle => exact (h.2.2 e).sorted
  case running => exact (h.2.running.ordered e).sorted
  case committing => exact (h.2.2.2.ordered e).elim (·.sorted) (·.sorted)
  case dropping => exact (h.2.2.ordered e).sorted

-- What a reader of a committed version finds is still there.
structure Keeps (p p' : Phase) : Prop where
  version : p.storage.versionCounter ≤ p'.storage.versionCounter
  seen    : ∀ n ≤ p.storage.versionCounter, Toggles.seen p'.history n = Toggles.seen p.history n
  nodes   : p.storage.content.Grows p'.storage.content

theorem Keeps.trans (h : p.Keeps p') (h' : p'.Keeps p'') : p.Keeps p'' where
  version   := h.version.trans h'.version
  seen n hn := (h'.seen n (hn.trans h.version)).trans (h.seen n hn)
  nodes     := h.nodes.trans h'.nodes

-- The content is the same.
theorem Keeps.of_eq (hv : p.storage.versionCounter ≤ p'.storage.versionCounter)
    (hc : p'.storage.content = p.storage.content) : p.Keeps p' where
  version  := hv
  seen _ _ := by rw [history, hc]
  nodes    := .of_eq (by rw [hc])

theorem Valid.step (h : p.Valid enc) (hs : Step enc p p') : p'.Valid enc ∧ p.Keeps p' := by
  obtain ⟨hst, h⟩ := h
  cases hs
  case start s =>
    obtain ⟨hlt, hset⟩ := h
    have hc : Toggles.current s.content.history =
        Toggles.seen s.content.history s.versionCounter := by
      ext e
      exact (Toggles.has_iff_odd_length (hset e).bound).symm
    have hst' : s.startTransaction.storage.Sound enc :=
      ⟨hst.wellFormed.extends { MemoryStorage.Extends.refl (s := s) with }, hst.graphNames,
        hst.committed⟩
    refine ⟨⟨hst', hst', ⟨?_, rfl, rfl⟩, ⟨fun e => (hset e).ordered, fun e he => ?_⟩, ?_⟩,
      .of_eq le_rfl rfl⟩
    · exact Nat.add_lt_add_right hlt 1
    · have := (hset e).bound _ he
      have : s.startTransaction.transactionId = s.transactionCounter + 1 := rfl
      omega
    · show (Content.dataset (Toggles.current s.content.history)).Proper
      rw [hc]
      exact hst.committed
  case apply t op =>
    obtain ⟨h', hv, -, he, hg⟩ := h.apply op
    refine ⟨⟨h'.storage, h'⟩, ?_, fun n hn => he n (h.numbered.version ▸ hn), hg⟩
    exact (h.numbered.version.trans (hv.symm.trans h'.numbered.version.symm)).le
  case commit t =>
    exact ⟨⟨hst, h.numbered, h.proper, h.running.upgrading⟩, .of_eq le_rfl rfl⟩
  case drop t =>
    exact ⟨⟨hst, h.numbered, h.running⟩, .of_eq le_rfl rfl⟩
  case upgrade t entry rest =>
    obtain ⟨hn, hp, hu⟩ := h
    have he : ∀ n ≤ t.storage.versionCounter, Toggles.seen
        (t.upgradeEntry t.storage entry).content.history n = Toggles.seen t.history n := by
      intro n hle
      have hlt := hn.lt
      rw [hn.version] at hle
      rw [t.history_upgradeEntry]
      exact Toggles.seen_update fun l => Toggles.has_upgrade (by omega) (by omega)
    refine ⟨⟨hst.modify (he _ le_rfl), ⟨hn.lt, hn.version, hn.counter⟩, ?_, ?_⟩, le_rfl, he,
      Content.grows_modify⟩
    · simp only [MemoryStorageTransaction.dataset, MemoryStorageTransaction.history,
        t.history_upgradeEntry, Toggles.current_upgrade]
      exact hp
    · simp only [MemoryStorageTransaction.history, t.history_upgradeEntry]
      exact hu.upgrade hn.lt
  case publish t =>
    obtain ⟨hn, hp, hu⟩ := h
    refine ⟨⟨⟨?_, hst.graphNames, ?_⟩, ?_, hu.settled⟩, .of_eq ?_ rfl⟩
    · exact hst.wellFormed.extends { MemoryStorage.Extends.refl (s := t.storage) with }
    · exact hu.current_eq ▸ hp
    · show t.snapshotId + 1 < t.storage.transactionCounter
      exact hn.counter ▸ hn.lt
    · exact hn.version.le.trans (Nat.le_succ _)
  case rollback t entry rest =>
    obtain ⟨hn, hr⟩ := h
    have he : ∀ n ≤ t.storage.versionCounter, Toggles.seen
        (t.rollbackEntry t.storage entry).content.history n = Toggles.seen t.history n := by
      intro n hle
      have hlt := hn.lt
      rw [hn.version] at hle
      rw [t.history_rollbackEntry]
      exact Toggles.seen_update fun l => Toggles.has_rollback (by omega)
    refine ⟨⟨hst.modify (he _ le_rfl), ⟨hn.lt, hn.version, hn.counter⟩, ?_⟩, le_rfl, he,
      Content.grows_modify⟩
    simp only [MemoryStorageTransaction.history, t.history_rollbackEntry]
    exact hr.rollback (Nat.lt_of_succ_lt hn.lt)
  case dropped t =>
    obtain ⟨hn, hr⟩ := h
    refine ⟨⟨hst, ?_, ?_⟩, .of_eq le_rfl rfl⟩
    · show t.storage.versionCounter < t.storage.transactionCounter
      rw [hn.version, hn.counter]
      exact Nat.lt_of_succ_lt hn.lt
    · show ∀ e, Toggles.Settled t.storage.versionCounter _
      rw [hn.version]
      exact hr.settled

theorem Valid.steps (h : p.Valid enc) (hs : Steps enc p p') : p'.Valid enc ∧ p.Keeps p' := by
  induction hs
  case refl => exact ⟨h, .of_eq le_rfl rfl⟩
  case tail _ hs hi =>
    obtain ⟨h, hk⟩ := hi
    obtain ⟨h', hk'⟩ := h.step hs
    exact ⟨h', hk.trans hk'⟩

theorem valid_new : (idle .new).Valid enc := by
  refine ⟨⟨MemoryStorage.wellFormed_new, List.nodup_nil, ?_⟩, by decide, fun e => ?_⟩
  · constructor <;> simp [Dataset.Registered, Content.dataset, Toggles.seen, Phase.storage,
      MemoryStorage.new, Content.history_empty, Toggles.Has]
  · constructor <;> simp [MemoryStorage.new, Content.history_empty]

end Phase

namespace MemoryStorageTransaction

variable {t : MemoryStorageTransaction} {enc : Encoder}

theorem steps_applyAll (t : MemoryStorageTransaction) (ops : List ReadableOp) :
    Steps enc (.running t) (.running (ops.foldl (fun t op => t.apply enc op) t)) := by
  induction ops generalizing t
  case nil => exact .refl
  case cons op ops hi => exact .head (.apply op) (hi _)

-- The loops over the log are runs of steps.
theorem steps_commit (t : MemoryStorageTransaction) (rest : List LogEntry) :
    Steps enc (.committing t rest) (.idle (t.publish (rest.foldl t.upgradeEntry t.storage))) := by
  induction rest generalizing t
  case nil => exact .single .publish
  case cons entry rest hi => exact .head .upgrade (hi _)

theorem steps_rollback (t : MemoryStorageTransaction) (rest : List LogEntry) :
    Steps enc (.dropping t rest) (.idle (rest.foldl t.rollbackEntry t.storage)) := by
  induction rest generalizing t
  case nil => exact .single .dropped
  case cons entry rest hi => exact .head .rollback (hi _)

-- The end of a transaction only goes through the content.
theorem counters_finish (f : VersionRange → VersionRange) (log : List LogEntry)
    (s : MemoryStorage) : (log.foldl (finishEntry f) s).versionCounter = s.versionCounter ∧
      (log.foldl (finishEntry f) s).transactionCounter = s.transactionCounter := by
  induction log generalizing s
  case nil => exact ⟨rfl, rfl⟩
  case cons entry log hi => exact hi _

-- The new version is what the transaction has made.
theorem dataset_publish {rest : List LogEntry} (h : (Phase.committing t rest).Valid enc) :
    let s := t.publish (rest.foldl t.upgradeEntry t.storage)
    Content.dataset (Toggles.seen s.content.history s.versionCounter) = t.dataset := by
  induction rest generalizing t
  case nil => exact congrArg Content.dataset h.2.2.2.current_eq
  case cons entry rest hi =>
    refine (hi (h.step .upgrade).1).trans ?_
    simp only [dataset, history, t.history_upgradeEntry, Toggles.current_upgrade]

theorem Sound.applyAll (h : t.Sound enc) (ops : List ReadableOp) :
    let t' := ops.foldl (fun t op => t.apply enc op) t
    t'.Sound enc ∧ t'.snapshotId = t.snapshotId ∧
      t'.dataset = ReadableOp.meanings enc ops t.dataset := by
  induction ops generalizing t
  case nil => exact ⟨h, rfl, rfl⟩
  case cons op ops hi =>
    obtain ⟨h', hv, hd, -⟩ := h.apply op
    obtain ⟨h'', hv', hd'⟩ := hi h'
    exact ⟨h'', hv'.trans hv, hd'.trans (by rw [hd]; rfl)⟩

theorem Sound.transactionId_applyAll (h : t.Sound enc) (ops : List ReadableOp) :
    (ops.foldl (fun t op => t.apply enc op) t).transactionId = t.transactionId := by
  induction ops generalizing t
  case nil => rfl
  case cons op ops hi =>
    obtain ⟨_, _, hs, -⟩ := h.apply_sets op
    exact (hi (h.apply op).1).trans hs.transactionId

end MemoryStorageTransaction

-- A snapshot stays as it is, whatever happens to transactions that are running or have yet to
-- start.
theorem snapshot_isolated {r : MemoryStorageReader} (h : Steps enc (.idle .new) p)
    (hr : r.snapshotId ≤ p.storage.versionCounter) (hs : Steps enc p p') :
    r.dataset p'.storage.content = r.dataset p.storage.content := by
  obtain ⟨hv, -⟩ := Phase.valid_new.steps h
  obtain ⟨hv', hk⟩ := hv.steps hs
  rw [MemoryStorageReader.dataset_eq hv.sorted, MemoryStorageReader.dataset_eq hv'.sorted,
    hk.seen _ hr]

-- A transaction that is being committed has removed the quad that was there before.
def sampleQuad : Rdf.Quad where
  subject   := .namedNode "a"
  predicate := "p"
  object    := .literal (.string "1")
  graphName := .namedNode "g"

def inserted : MemoryStorage := MemoryStorage.new.transact .plain ([.insert sampleQuad], true)

def removing : MemoryStorageTransaction :=
  inserted.startTransaction.apply .plain (.remove sampleQuad)

theorem steps_inserted : Steps .plain (.idle .new) (.idle inserted) := by
  have hs : Steps .plain (.running MemoryStorage.new.startTransaction) _ :=
    MemoryStorageTransaction.steps_applyAll _ [.insert sampleQuad]
  exact .trans (.head .start (.tail hs .commit)) (MemoryStorageTransaction.steps_commit _ _)

theorem steps_removing : Steps .plain (.idle inserted) (.committing removing removing.log) :=
  .head .start <| .head (.apply _) <| .single .commit

theorem snapshot_isolated_sample :
    MemoryStorageReader.dataset ⟨1⟩ removing.storage.content =
      MemoryStorageReader.dataset ⟨1⟩ inserted.content ∧
    removing.reader.contains removing.storage.content (Encoder.plain.encodeQuad sampleQuad) =
      false :=
  ⟨snapshot_isolated (r := ⟨1⟩) steps_inserted (by decide +kernel) steps_removing,
    by decide +kernel⟩

namespace MemoryStorage

variable {s : MemoryStorage} {enc : Encoder} {Ds : List Dataset}

-- The datasets of all versions, after one more transaction that is committed or dropped.
def nextVersions (enc : Encoder) (Ds : List Dataset) (txn : List ReadableOp × Bool) :
    List Dataset :=
  if txn.2 then Ds ++ [ReadableOp.meanings enc txn.1 (Ds.getLastD ⟨∅, ∅⟩)] else Ds

-- Readers of a version find the dataset of the version.
structure Represents (enc : Encoder) (s : MemoryStorage) (Ds : List Dataset) : Prop where
  valid  : (Phase.idle s).Valid enc
  length : Ds.length = s.versionCounter + 1
  seen   : ∀ n D, Ds[n]? = some D → Content.dataset (Toggles.seen s.content.history n) = D

namespace Represents

theorem seen_last (h : s.Represents enc Ds) :
    Content.dataset (Toggles.seen s.content.history s.versionCounter) = Ds.getLastD ⟨∅, ∅⟩ := by
  have hl : Ds[s.versionCounter]? = Ds.getLast? := by
    rw [List.getLast?_eq_getElem?, h.length, Nat.add_sub_cancel]
  obtain ⟨D, hD⟩ : ∃ D, Ds.getLast? = some D := by
    rw [← hl]
    exact ⟨_, List.getElem?_eq_getElem (by rw [h.length]; exact Nat.lt_succ_self _)⟩
  rw [List.getLastD_eq_getLast?, hD, Option.getD_some, h.seen s.versionCounter D (hl.trans hD)]

theorem start_dataset (h : s.Represents enc Ds) :
    s.startTransaction.dataset = Ds.getLastD ⟨∅, ∅⟩ := by
  rw [← h.seen_last]
  refine congrArg Content.dataset (Set.ext fun e => ?_)
  exact (Toggles.has_iff_odd_length (h.valid.2.2 e).bound).symm

-- The old versions are still there.
theorem seen_keeps (h : s.Represents enc Ds) {s' : MemoryStorage}
    (hk : (Phase.idle s).Keeps (.idle s')) (hD : Ds[n]? = some D) :
    Content.dataset (Toggles.seen s'.content.history n) = D := by
  have hn := (List.getElem?_eq_some_iff.mp hD).1
  rw [h.length] at hn
  rw [← h.seen n D hD]
  exact congrArg Content.dataset (hk.seen n (Nat.le_of_lt_succ hn))

theorem transact (h : s.Represents enc Ds) (txn : List ReadableOp × Bool) :
    (s.transact enc txn).Represents enc (nextVersions enc Ds txn) := by
  obtain ⟨hv, -⟩ := h.valid.step .start
  obtain ⟨ht, hi, hd⟩ := hv.2.applyAll txn.1
  have hs : Steps enc (.idle s) _ := .head .start (s.startTransaction.steps_applyAll txn.1)
  unfold MemoryStorage.transact nextVersions
  generalize txn.1.foldl _ s.startTransaction = t at ht hi hd hs ⊢
  have hi : t.snapshotId = s.versionCounter := hi
  dsimp only
  split
  case isTrue =>
    have hc : Steps enc (.idle s) (.committing t t.log) := .tail hs .commit
    obtain ⟨hv, hk⟩ := h.valid.steps (hc.trans (t.steps_commit t.log))
    refine ⟨hv, ?_, fun n D hD => ?_⟩
    · rw [List.length_append, h.length, ← hi]
      rfl
    · rw [List.getElem?_append] at hD
      split at hD
      case isTrue => exact h.seen_keeps hk hD
      case isFalse hn =>
        obtain ⟨hn', rfl⟩ := List.getElem?_eq_some_iff.mp hD
        have hn : n = t.commit.versionCounter := by
          have : t.commit.versionCounter = t.snapshotId + 1 := rfl
          rw [List.length_singleton, h.length] at hn'
          rw [h.length] at hn
          omega
        rw [List.getElem_singleton, ← h.start_dataset, ← hd, hn]
        exact MemoryStorageTransaction.dataset_publish (h.valid.steps hc).1
  case isFalse =>
    have hc : Steps enc (.idle s) (.dropping t t.log) := .tail hs .drop
    obtain ⟨hv, hk⟩ := h.valid.steps (hc.trans (t.steps_rollback t.log))
    refine ⟨hv, ?_, fun n D hD => h.seen_keeps hk hD⟩
    rw [h.length, ← hi, ← ht.numbered.version]
    exact congrArg (· + 1) (MemoryStorageTransaction.counters_finish _ t.log t.storage).1.symm

end Represents

theorem represents_new : MemoryStorage.new.Represents enc [⟨∅, ∅⟩] where
  valid       := Phase.valid_new
  length      := rfl
  seen n D hD := by
    obtain ⟨-, rfl⟩ := List.getElem?_eq_some_iff.mp hD
    simp [Content.dataset, Toggles.seen, MemoryStorage.new, Content.history_empty, Toggles.Has]

-- Every version has the dataset that the committed transactions mean, and a transaction finds there
-- what its own operations have made of the last one.
theorem transactions_refine (enc : Encoder) (txns : List (List ReadableOp × Bool)) :
    let s := Run.run (MemoryStorage.transact enc) .new txns
    let Ds := Run.run (nextVersions enc) [⟨∅, ∅⟩] txns
    Ds.length = s.versionCounter + 1 ∧
    (∀ n D, Ds[n]? = some D → MemoryStorageReader.dataset ⟨n⟩ s.content = D) ∧
    ∀ ops : List ReadableOp,
      let t := ops.foldl (fun t op => t.apply enc op) s.startTransaction
      t.reader.dataset t.storage.content = ReadableOp.meanings enc ops (Ds.getLastD ⟨∅, ∅⟩) := by
  intro s Ds
  have h : s.Represents enc Ds := Run.related (fun h => h.transact _) represents_new
  refine ⟨h.length, fun n D hD => ?_, fun ops => ?_⟩
  · exact (MemoryStorageReader.dataset_eq h.valid.sorted).trans (h.seen n D hD)
  · obtain ⟨ht, -, hd⟩ := (h.valid.step .start).1.2.applyAll ops
    exact ht.reader_dataset.trans (hd.trans (by rw [h.start_dataset]))

theorem counters_transact (h : (Phase.idle s).Valid enc) (txn : List ReadableOp × Bool) :
    (s.transact enc txn).versionCounter ≤ s.versionCounter + 1 ∧
      (s.transact enc txn).transactionCounter = s.transactionCounter + 1 := by
  obtain ⟨hv, -⟩ := h.step .start
  obtain ⟨ht, hi, -⟩ := hv.2.applyAll txn.1
  have hn := hv.2.transactionId_applyAll txn.1
  unfold MemoryStorage.transact
  generalize txn.1.foldl _ s.startTransaction = t at ht hi hn ⊢
  have hv : t.storage.versionCounter = s.versionCounter := ht.numbered.version.trans hi
  have hc : t.storage.transactionCounter = s.transactionCounter + 1 := ht.numbered.counter.trans hn
  dsimp only
  split
  case isTrue =>
    have hf := MemoryStorageTransaction.counters_finish
      (.upgradeTransaction t.transactionId (t.snapshotId + 1)) t.log t.storage
    exact ⟨(congrArg (· + 1) hi).le, hf.2.trans hc⟩
  case isFalse =>
    have hf := MemoryStorageTransaction.counters_finish
      (.rollbackTransaction t.transactionId) t.log t.storage
    exact ⟨(hf.1.trans hv).le.trans (Nat.le_succ _), hf.2.trans hc⟩

-- The counters of the source do not overflow.
theorem counters_transactions (enc : Encoder) (txns : List (List ReadableOp × Bool)) :
    (Run.run (MemoryStorage.transact enc) .new txns).versionCounter ≤ txns.length ∧
      (Run.run (MemoryStorage.transact enc) .new txns).transactionCounter =
        2 ^ 63 - 1 + txns.length := by
  induction txns using List.reverseRecOn
  case nil => exact ⟨le_rfl, rfl⟩
  case append_singleton txns txn hi =>
    have h : (Run.run (MemoryStorage.transact enc) .new txns).Represents enc _ :=
      Run.related (fun h => h.transact _) represents_new
    have := counters_transact h.valid txn
    rw [Run.run_append, Run.run_cons, Run.run_nil, List.length_append, List.length_singleton]
    omega

end MemoryStorage

end Memory
