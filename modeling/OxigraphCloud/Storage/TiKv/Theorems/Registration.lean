import OxigraphCloud.Storage.TiKv.Theorems.Readable
import OxigraphCloud.Storage.TiKv.Theorems.Validate

-- All stores that transactions lead to.

namespace TiKv

namespace StorageTransaction

variable {txn : Transaction} {D : Dataset} {δ : DatasetDelta}

-- Each table can be scanned completely before each of the operations.
def Scannable (enc : Encoder) : List WriteOp → Transaction → Prop
  | [], _          => True
  | op :: ops, txn => (∀ table, Fits txn.view table) ∧ Scannable enc ops (apply enc op txn)

theorem applyAll_pending {enc : Encoder} {ops : List WriteOp} (h : txn.Pending D δ)
    (hf : Scannable enc ops txn) :
    ∃ δ', (applyAll enc ops txn).Pending D δ' ∧
      δ'.patch D = WriteOp.kvMeanings enc ops (δ.patch D) ∧
      ∀ {versions : Set (Set EncodedQuad)}, D.quads ∈ versions → δ.Sound versions →
        δ'.Sound versions := by
  induction ops generalizing txn δ
  case nil => exact ⟨δ, h, rfl, fun _ hs => hs⟩
  case cons op ops hi =>
    obtain ⟨δ₁, h₁, hp₁, hs₁⟩ := apply_pending op ⟨h, fun _ => hf.1 _, hf.1 _⟩
    obtain ⟨δ', h', hp, hs⟩ := hi h₁ hf.2
    exact ⟨δ', h', by rw [hp, hp₁]; rfl, fun hD h => hs hD (hs₁ hD h)⟩

end StorageTransaction

-- The stores that transactions lead to. A transaction that has started at `ts` can commit if no
-- other transaction has committed a write to one of its keys since then. The iterators of a
-- readable transaction open further transactions in the meantime. The operations of readable
-- transactions satisfy `P`.
inductive ReachableBy (enc : Encoder) (P : List ReadableOp → Prop) : History Bytes Bytes → Prop
  | empty : ReachableBy enc P ⟨∅, []⟩
  | write {ops : List WriteOp} : (ReachableBy enc P db) → (ts ≤ db.now) →
      (StorageTransaction.Scannable enc ops (beginAt db ts noFaults)) →
      (txn = StorageTransaction.applyAll enc ops (beginAt db ts noFaults)) →
      (¬db.conflicts ts txn.writes) → ReachableBy enc P (db.push txn.writes)
  | readable {ops : List ReadableOp} : (ReachableBy enc P db) → (ts ≤ db.now) →
      (∀ n, ts ≤ opened n ∧ opened n ≤ db.now) → (0 < size ∧ size < 2 ^ 32) → (P ops) →
      (((ReadableTransaction.backend enc).applyAll ops).Evaluates
        ⟨beginAt db ts noFaults, .openedAt db opened size⟩ (.ok ()) t) →
      (¬db.conflicts ts t.txn.writes) → ReachableBy enc P (db.push t.txn.writes)

-- No readable transaction drops a graph name of a quad that it has inserted.
abbrev Reachable (enc : Encoder) := ReachableBy enc (KeepsInserted enc ∅)

-- The graph names of all quads are known. A quad that was not there at `n` has been added by a
-- commit since then, which has written its graph name, too.
structure Tracked (db : History Bytes Bytes) (Ds : ℕ → Dataset) : Prop where
  versions   : Versions db Ds
  registered : (Ds db.now).Registered
  added      : ∀ n ≤ db.now, ∀ q ∈ (Ds db.now).quads, q ∉ (Ds n).quads →
    q.graphName ≠ .defaultGraph →
      ∃ m ∈ db.since n, m.effect (prefixedKey .graphs (writeTerm q.graphName)) ≠ none

-- What has been committed since a transaction has started, and before.
def Tracked.since (db : History Bytes Bytes) (Ds : ℕ → Dataset) (ts : ℕ) : Set (Set EncodedQuad) :=
  { Q | ∃ n, ts ≤ n ∧ n ≤ db.now ∧ (Ds n).quads = Q }

namespace Tracked

variable {db : History Bytes Bytes} {Ds : ℕ → Dataset} {txn : Transaction} {D : Dataset}
  {δ : DatasetDelta}

theorem writes_graph {g : EncodedTerm} (hc : (writesDelta ws).Coherent δ) (hg : g.IsTerm)
    (he : g.canonical = g) (h : δ.graphs g ≠ none) :
    ∃ m ∈ ws, m.effect (prefixedKey .graphs (writeTerm g)) ≠ none := by
  refine Mutation.exists_effect fun hn => h ?_
  rw [← he, ← hc.graphs hg, writesDelta, hn]
  rfl

theorem push (h : Tracked db Ds) (hc : (writesDelta ws).Coherent δ)
    (hs : δ.Sound (since db Ds ts))
    (hn : ¬db.conflicts ts ws) :
    Tracked (db.push ws) (nextVersions db Ds δ) := by
  have hv := h.versions.push hc
  have hD : nextVersions db Ds δ (db.push ws).now = δ.patch (Ds db.now) := by
    rw [nextVersions, History.now_push, if_neg (by omega)]
  have hterm {q : EncodedQuad} (hq : q ∈ (δ.patch (Ds db.now)).quads)
      (hg : q.graphName ≠ .defaultGraph) :
      q.graphName.IsTerm ∧ q.graphName.canonical = q.graphName := by
    have hS := hv (db.push ws).now
    rw [hD] at hS
    exact ⟨(hS.isQuad q hq).graphName hg, congrArg EncodedQuad.graphName (hS.canonical q hq)⟩
  refine ⟨hv, ?_, ?_⟩ <;> rw [hD]
  · intro q hq hg
    obtain ⟨ht, he⟩ := hterm hq hg
    rcases hq with hq | ⟨hq, hm⟩
    case inl => exact .inl <| hs.inserted hq hg
    case inr =>
      cases hd : δ.graphs q.graphName
      case none => exact .inr ⟨hd, h.registered q hm hg⟩
      case some b =>
        cases b
        case true => exact .inl hd
        case false =>
          obtain ⟨_, ⟨n, hl, hu, rfl⟩, hq'⟩ := hs.dropped hd hq
          obtain ⟨m', hm', he'⟩ := h.added n hu q hm hq' hg
          obtain ⟨m, hm, he⟩ := writes_graph hc ht he (by simp [hd])
          exact absurd (History.effect_eq_none hn hl hm he hm') he'
  · intro n hl q hq hq' hg
    obtain ⟨ht, he⟩ := hterm hq hg
    by_cases hl : n ≤ db.now
    case neg =>
      rw [nextVersions, if_neg hl] at hq'
      exact absurd hq hq'
    case pos =>
      rw [nextVersions, if_pos hl] at hq'
      rw [History.since_push hl]
      simp only [List.mem_append, or_and_right, exists_or]
      rcases hq with hq | ⟨_, hm⟩
      case inl => exact .inr <| writes_graph hc ht he (by simp [hs.inserted hq hg])
      case inr => exact .inl <| h.added n hl q hm hq' hg

end Tracked

section Reachable

variable {P : List ReadableOp → Prop} {db : History Bytes Bytes} {Ds : ℕ → Dataset}

-- What a readable transaction has buffered at the end. It is sound if no graph name of an inserted
-- quad is dropped.
theorem Versions.applyAll_readable {ops : List ReadableOp} (h : Versions db Ds)
    (ho : ∀ n, ts ≤ opened n ∧ opened n ≤ db.now) (hb : 0 < size ∧ size < 2 ^ 32)
    (he : ((ReadableTransaction.backend enc).applyAll ops).Evaluates
      ⟨beginAt db ts noFaults, .openedAt db opened size⟩ r t) :
    ∃ δ, (writesDelta t.txn.writes).Coherent δ ∧
      (KeepsInserted enc ∅ ops → δ.Sound (Tracked.since db Ds ts)) := by
  have hr : ReadableTransaction.Running ⟨beginAt db ts noFaults, .openedAt db opened size⟩
      (fun n => db.stateAt (opened n)) (fun n => (Ds (opened n)).quads) (Ds ts) .none :=
    ⟨Storage.openedAt_serves, fun n => (h _).toIndexes, ⟨hb.1, hb.2⟩, h.pending ts⟩
  have hv {n} : (Ds (opened n)).quads ∈ Tracked.since db Ds ts := ⟨_, (ho n).1, (ho n).2, rfl⟩
  obtain ⟨_, δ, h', hs⟩ := ReadableBackend.applyAll_sound (ReadableTransaction.lawful enc)
    (fun _ => hv) hr (fun _ => ⟨.none, nofun⟩) id he
  exact ⟨δ, h'.pending.coherent, hs⟩

theorem ReachableBy.versions (h : ReachableBy enc P db) : ∃ Ds, Versions db Ds := by
  induction h
  case empty => exact ⟨_, .empty⟩
  case write ts _ _ _ _ hf ht _ hi =>
    obtain ⟨Ds, h⟩ := hi
    obtain ⟨δ, hp, -⟩ := StorageTransaction.applyAll_pending (h.pending ts) hf
    exact ⟨_, h.push (ht ▸ hp.coherent)⟩
  case readable _ _ ho hb _ he _ hi =>
    obtain ⟨Ds, h⟩ := hi
    obtain ⟨δ, hc, -⟩ := h.applyAll_readable ho hb he
    exact ⟨_, h.push hc⟩

theorem Reachable.tracked (h : Reachable enc db) : ∃ Ds, Tracked db Ds := by
  induction h
  case empty =>
    exact ⟨_, .empty, by simp [Dataset.Registered], by simp⟩
  case write db ts txn ops _ hts hf ht hc hi =>
    obtain ⟨Ds, h⟩ := hi
    have hD : (Ds ts).quads ∈ Tracked.since db Ds ts := ⟨ts, le_rfl, hts, rfl⟩
    obtain ⟨δ, hp, -, hs⟩ := StorageTransaction.applyAll_pending (h.versions.pending ts) hf
    exact ⟨_, h.push (ht ▸ hp.coherent) (hs hD .none) hc⟩
  case readable _ hts ho hb hk he hc hi =>
    obtain ⟨Ds, h⟩ := hi
    obtain ⟨δ, hd, hs⟩ := h.versions.applyAll_readable ho hb he
    exact ⟨_, h.push hd (hs hk) hc⟩

end Reachable

theorem reachable_consistent (h : Reachable enc db) :
    ∃ D, (tables db.current).Stores D ∧ D.Registered := by
  obtain ⟨Ds, h⟩ := h.tracked
  exact ⟨Ds db.now, h.versions db.now, h.registered⟩

-- A client that reads the last state never reports a corruption.
theorem reachable_validates {r : StorageReader} (h : ReachableBy enc (fun _ => True) db)
    (hr : r.txn.Reads db.current) : (r.validate).1 = .ok () := by
  obtain ⟨Ds, h⟩ := h.versions
  exact (StorageReader.validate_ok_iff hr).mpr <|
    StorageReader.sameCounts_of_indexes (h db.now).toIndexes

-- Two write-only transactions that start on the empty store, and a readable one that starts before
-- the second of them commits.
def sampleOps : List WriteOp := [.insert sampleQuad]

def sampleGraphOps : List WriteOp := [.insertNamedGraph (.blankNode (.anonymous 2))]

def sampleReadableOps : List ReadableOp :=
  [.remove sampleQuad, .insertNamedGraph (.blankNode (.anonymous 1))]

def sampleWrite (ops : List WriteOp) : Transaction :=
  StorageTransaction.applyAll .plain ops (beginAt ⟨∅, []⟩ 0 noFaults)

def sampleHistory : History Bytes Bytes :=
  (History.push ⟨∅, []⟩ (sampleWrite sampleOps).writes).push (sampleWrite sampleGraphOps).writes

def sampleReadable : ReadableTransaction :=
  let b := ReadableTransaction.backend .plain
  b.insertNamedGraph (.blankNode (.anonymous 1)) <| b.remove sampleQuad
    ⟨beginAt sampleHistory 1 noFaults, .openedAt sampleHistory (fun _ => 2) 1⟩

theorem fits_of_size {kv : State} (h : kv.size ≤ u32Max) (table : Table) : Fits kv table := by
  rw [Fits, ← length_keysIn_table, Kv.keysIn, List.length_map]
  refine (List.length_filter_le _ _).trans ?_
  rwa [Std.ExtTreeMap.length_toList]

-- A transaction with few writes, on a store with few commits.
theorem fits_view {txn : Transaction} (hs : txn.snapshot = Mutation.applyAll ∅ ws)
    (h : ws.length + txn.writes.length ≤ u32Max) (table : Table) : Fits txn.view table := by
  refine fits_of_size ((Mutation.size_applyAll_le _ _).trans ?_) table
  have := Mutation.size_applyAll_le (∅ : State) ws
  rw [Std.ExtTreeMap.size_empty, ← hs] at this
  omega

theorem scannable_empty (op : WriteOp) :
    StorageTransaction.Scannable .plain [op] (beginAt ⟨∅, []⟩ 0 noFaults) :=
  ⟨fits_view rfl (by decide), trivial⟩

theorem reachable_sample {P : List ReadableOp → Prop} (h : P sampleReadableOps) :
    ReachableBy .plain P (sampleHistory.push sampleReadable.txn.writes) := by
  have h₁ : ReachableBy .plain P (.push ⟨∅, []⟩ (sampleWrite sampleOps).writes) :=
    .write .empty le_rfl (scannable_empty (.insert sampleQuad)) rfl (by decide)
  have h₂ : ReachableBy .plain P sampleHistory :=
    .write h₁ (Nat.zero_le _) (scannable_empty (.insertNamedGraph (.blankNode (.anonymous 2)))) rfl
      (by decide)
  exact .readable h₂ (by decide) (fun _ => by decide) (by decide) h ⟨0, rfl⟩ (by decide)

theorem reachable_consistent_sample :
    ∃ D, (tables (sampleHistory.push sampleReadable.txn.writes).current).Stores D ∧ D.Registered :=
  reachable_consistent <| reachable_sample <| by
    simp [sampleReadableOps, KeepsInserted, ReadableOp.Keeps]

theorem reads_now (db : History Bytes Bytes) : (beginAt db db.now noFaults).Reads db.current :=
  ⟨rfl, History.stateAt_of_now_le le_rfl⟩

theorem reachable_validates_sample :
    let db := sampleHistory.push sampleReadable.txn.writes
    (StorageReader.validate ⟨.openedAt db id 1, beginAt db db.now noFaults, []⟩).1 = .ok () :=
  reachable_validates (reachable_sample trivial) (reads_now _)

end TiKv
