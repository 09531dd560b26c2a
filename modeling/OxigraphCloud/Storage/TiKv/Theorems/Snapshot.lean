import OxigraphCloud.Storage.TiKv.Theorems.History

namespace TiKv

namespace StorageReader

variable {r : StorageReader} {kv : State} {p : Pattern} {S : Set EncodedQuad}

-- If the index tables have the keys of the quads `S`, they index their canonical forms.
theorem indexes_of_keys (hS : ∀ q ∈ S, q.IsQuad)
    (hk : ∀ e k, k ∈ tables kv (QuadEncoding.table e) ↔ ∃ q ∈ S, e.Indexes q ∧ e.writer q = k) :
    (tables kv).Indexes (EncodedQuad.canonical '' S) where
  isQuad    := fun _ ⟨q, hq, he⟩ => he ▸ (hS q hq).canonical
  canonical := fun _ ⟨q, _, he⟩ => he ▸ q.canonical_canonical
  index e k := by
    rw [hk]
    constructor
    · intro ⟨q, hq, hi, hw⟩
      exact ⟨_, ⟨q, hq, rfl⟩, hi.canonical, QuadEncoding.writer_canonical.trans hw⟩
    · intro ⟨_, ⟨q, hq, he⟩, hi, hw⟩
      subst he
      refine ⟨q, hq, ⟨hS q hq, ?_⟩, QuadEncoding.writer_canonical.symm.trans hw⟩
      simpa [EncodedQuad.canonical] using hi.graph

theorem quadsForPattern_exact (hs : r.storage.Serves fun _ => kv) (hb : r.storage.BatchSize)
    (hS : ∀ q ∈ S, q.IsQuad)
    (hk : ∀ e k, k ∈ tables kv (QuadEncoding.table e) ↔ ∃ q ∈ S, e.Indexes q ∧ e.writer q = k)
    (hp : p.IsPattern) :
    ∃ (quads : List EncodedQuad) (s' : _),
      Iter.Yields DecodingQuadIterator.next
        ((r.quadsForPattern p).1, (r.quadsForPattern p).2.storage) (quads.map .ok) s' ∧
      quads.Pairwise (fun q q' : EncodedQuad => ¬q.SameBytes q') ∧
      ∀ q : EncodedQuad,
        (∃ q' ∈ quads, q.SameBytes q') ↔ ∃ q' ∈ S, q.SameBytes q' ∧ p.MatchesBytes q' := by
  have hi := indexes_of_keys hS hk
  have ⟨_, _, _, _, hy, ⟨quads, he, hn, hm⟩, _⟩ := quadsForPattern_answers hs (fun _ => hi) hb hp
  subst he
  refine ⟨quads, _, hy, ?_, fun q => ⟨?_, ?_⟩⟩
  · refine hn.imp_of_mem fun {q q'} hq hq' hne hs => hne ?_
    have hq := (hm q).mp hq |>.left
    have hq' := (hm q').mp hq' |>.left
    have hs := (hi.isQuad q hq).sameBytes_iff (hi.isQuad q' hq') |>.mp hs
    rwa [hi.canonical q hq, hi.canonical q' hq'] at hs
  · intro ⟨q', hq', hs⟩
    have ⟨⟨q'', hq'', he⟩, hm⟩ := (hm q').mp hq'
    subst he
    have hs pos := (hs pos).trans (q''.sameBytes_canonical pos).symm
    exact ⟨q'', hq'', hs, hp.matchesBytes_iff (hS q'' hq'') |>.mpr hm⟩
  · intro ⟨q', hq', hs, hm'⟩
    have hs pos := (hs pos).trans (q'.sameBytes_canonical pos)
    exact ⟨_, hm _ |>.mpr ⟨⟨q', hq', rfl⟩, hp.matchesBytes_iff (hS q' hq') |>.mp hm'⟩, hs⟩

-- Only the counter of the opened transactions may change when an iterator is created.
theorem quadsForPattern_snd (r : StorageReader) (p : Pattern) :
    ∃ n, (r.quadsForPattern p).2 = { r with storage := { r.storage with begun := n } } := by
  rcases p with ⟨_ | _, _ | _, _ | _, _ | _⟩
  case none.none.none.none =>
    refine ⟨r.storage.begun + 2, ?_⟩
    simp only [quadsForPattern, quads, Storage.beginOptimistic]
    split <;> rfl
  all_goals exact ⟨r.storage.begun, rfl⟩

end StorageReader

-- A store to which one quad of a named graph has been committed, and one from which it has then
-- been removed.

def sampleQuad : Rdf.Quad where
  subject   := .namedNode "http://example.com/s"
  predicate := "http://example.com/p"
  object    := .namedNode "http://example.com/o"
  graphName := .namedNode "http://example.com/g"

def sampleDb : History Bytes Bytes := commitOp .plain (.insert sampleQuad) ⟨∅, []⟩

def sampleEncoded : EncodedQuad := Encoder.plain.encodeQuad sampleQuad

theorem isQuad_sampleEncoded : sampleEncoded.IsQuad := Encoder.plain.isQuad_encodeQuad sampleQuad

theorem sampleDb_versions : Versions sampleDb fun n =>
    if n = 0 then ⟨∅, ∅⟩ else ⟨{sampleEncoded}, {sampleEncoded.graphName}⟩ := by
  intro n
  have h : Versions sampleDb _ := Versions.empty.commit_insert
  have hq : (Encoder.plain.encodeQuad sampleQuad).canonical = sampleEncoded := rfl
  have hg : sampleEncoded.graphName ≠ .defaultGraph := nofun
  simpa [nextVersions, History.now, DatasetDelta.patch_comp, Dataset.insert, hq, hg] using h n

-- The reader of a snapshot that was taken at `ts`, as long as nothing else is committed.
def snapshotAt (db : History Bytes Bytes) (ts scanBatchSize : ℕ) : StorageReader :=
  snapshot (.openedAt db (fun _ => ts) scanBatchSize) (beginAt db ts noFaults)

theorem StorageReader.quadsForPattern_exact_sample :
    let r := snapshotAt sampleDb 1 1
    let p : Pattern := ⟨none, none, none, none⟩
    ∃ (quads : List EncodedQuad) (s' : _),
      Iter.Yields DecodingQuadIterator.next
        ((r.quadsForPattern p).1, (r.quadsForPattern p).2.storage) (quads.map .ok) s' ∧
      quads.Pairwise (fun q q' : EncodedQuad => ¬q.SameBytes q') ∧
      ∀ q : EncodedQuad, (∃ q' ∈ quads, q.SameBytes q') ↔
        ∃ q' ∈ ({sampleEncoded} : Set EncodedQuad), q.SameBytes q' ∧ p.MatchesBytes q' :=
  StorageReader.quadsForPattern_exact Storage.openedAt_serves ⟨by decide, by decide⟩
    (by simpa using isQuad_sampleEncoded) (sampleDb_versions 1).index ⟨nofun, nofun, nofun, nofun⟩

-- The reader for an iterator whose `n`-th transaction starts at `opened n`.
def StorageReader.opening (r : StorageReader) (db : History Bytes Bytes) (opened : ℕ → ℕ) :
    StorageReader :=
  { r with storage := .openedAt db opened r.storage.scanBatchSize }

-- The reads that are made through a reader. While an iterator is consumed, other clients commit and
-- other reads are made: all that matters for the iterator is when its own transactions start.
inductive Read
  | contains (quad : EncodedQuad)
  | quadsForPattern (pattern : Pattern) (opened : ℕ → ℕ)
  | namedGraphs
  | containsNamedGraph (graphName : EncodedTerm)
  | len
  | isEmpty

inductive Answer
  | bool (b : Bool)
  | count (n : ℕ)
  | quads (items : List (Except StorageError EncodedQuad))
  | graphNames (items : List (Except StorageError EncodedTerm))

namespace Read

-- The read gives the answer and leaves the reader in state `r'`.
def Gives (db : History Bytes Bytes) (r : StorageReader) :
    Read → Answer → StorageReader → Prop
  | .contains quad, a, r' => ∃ b, StorageReader.contains quad r = (.ok b, r') ∧ a = .bool b
  | .quadsForPattern pattern opened, a, r' =>
    ∃ it r₁ items s', (r.opening db opened).quadsForPattern pattern = (it, r₁) ∧
      Iter.Yields DecodingQuadIterator.next (it, r₁.storage) items s' ∧ a = .quads items ∧
      r' = { r₁ with storage := s'.2 }
  | .namedGraphs, a, r' => ∃ items, r.namedGraphs = (items, r') ∧ a = .graphNames items
  | .containsNamedGraph graphName, a, r' =>
    ∃ b, StorageReader.containsNamedGraph graphName r = (.ok b, r') ∧ a = .bool b
  | .len, a, r' => ∃ n, StorageReader.len r = (.ok n, r') ∧ a = .count n
  | .isEmpty, a, r' => ∃ b, StorageReader.isEmpty r = (.ok b, r') ∧ a = .bool b

def AllGive (db : History Bytes Bytes) : StorageReader → List Read → List Answer → Prop
  | _, [], as            => as = []
  | r, read :: reads, as =>
    ∃ a r' as', as = a :: as' ∧ read.Gives db r a r' ∧ AllGive db r' reads as'

-- The answer is right for a store that holds `D`.
def Agrees (D : Dataset) : Read → Answer → Prop
  | .contains quad, .bool b                => b ↔ quad.canonical ∈ D.quads
  | .quadsForPattern pattern _, .quads items =>
    Iter.Lists items { q | q ∈ D.quads ∧ pattern.canonical.Matches q }
  | .namedGraphs, .graphNames items        => Iter.Lists items D.namedGraphs
  | .containsNamedGraph graphName, .bool b => b ↔ graphName.canonical ∈ D.namedGraphs
  | .len, .count n                         => n = D.quads.ncard
  | .isEmpty, .bool b                      => b ↔ D.quads = ∅
  | _, _                                   => False

-- The terms in the arguments of the read.
def IsRead : Read → Prop
  | .contains quad                => quad.IsQuad
  | .quadsForPattern pattern _    => pattern.IsPattern
  | .containsNamedGraph graphName => graphName.IsTerm
  | _                             => True

-- Nothing that the read looks at has changed since the snapshot, and no scan of a whole table
-- reaches its limit.
def Unchanged (db : History Bytes Bytes) (Ds : ℕ → Dataset) (ts : ℕ) : Read → Prop
  | .quadsForPattern pattern opened => ∀ n q, pattern.canonical.Matches q →
    (q ∈ (Ds (opened n)).quads ↔ q ∈ (Ds ts).quads)
  | .namedGraphs => Fits (db.stateAt ts) .graphs
  | .len         => Fits (db.stateAt ts) .gspo ∧ Fits (db.stateAt ts) .dspo
  | _            => True

end Read

section Snapshot

variable {db : History Bytes Bytes} {Ds : ℕ → Dataset} {ts : ℕ} {r : StorageReader}

-- What a read relies on and what it preserves.
structure StorageReader.Snapshot (r : StorageReader) (db : History Bytes Bytes) (ts : ℕ) :
    Prop where
  reads : r.txn.Reads (db.stateAt ts)
  batch : r.storage.BatchSize

theorem Read.quadsForPattern_gives (pattern : Pattern) (opened : ℕ → ℕ) (hv : Versions db Ds)
    (h : r.Snapshot db ts) (hp : pattern.IsPattern) :
    ∃ items r', ∃ time : EncodedQuad → ℕ,
      (quadsForPattern pattern opened).Gives db r (.quads items) r' ∧ r'.Snapshot db ts ∧
      Iter.Lists items {
        q | q ∈ (Ds (opened (time q))).quads ∧ pattern.canonical.Matches q
      } := by
  have hb : (r.opening db opened).storage.BatchSize := ⟨h.batch.pos, h.batch.lt⟩
  have ⟨items, _, last, time, hy, hl, _⟩ := StorageReader.quadsForPattern_answers
    Storage.openedAt_serves (fun n => (hv (opened n)).toIndexes) hb hp
  have ⟨_, hn⟩ := (r.opening db opened).quadsForPattern_snd pattern
  rcases he : (r.opening db opened).quadsForPattern pattern with ⟨it, r₁⟩
  simp only [he] at hy hn
  subst hn
  exact ⟨items, _, time, ⟨it, _, items, _, he, hy, rfl, rfl⟩, ⟨h.reads, hb.pos, hb.lt⟩, hl⟩

theorem Read.gives_agreeing {read : Read} (hv : Versions db Ds) (h : r.Snapshot db ts)
    (hr : read.IsRead) (hu : read.Unchanged db Ds ts) :
    ∃ a r', read.Gives db r a r' ∧ r'.Snapshot db ts ∧ read.Agrees (Ds ts) a := by
  have hi := hv ts
  cases read
  case contains quad =>
    have ⟨b, he, hb⟩ := StorageReader.contains_eq h.reads hi.toIndexes hr
    exact ⟨_, _, ⟨b, he, rfl⟩, ⟨h.reads.called, h.batch⟩, hb⟩
  case quadsForPattern pattern opened =>
    have ⟨items, r', time, hg, h', hl⟩ := Read.quadsForPattern_gives pattern opened hv h hr
    exact ⟨_, r', hg, h', hl.congr fun q => and_congr_left fun hm => hu (time q) q hm⟩
  case namedGraphs =>
    have ⟨hl, he⟩ := StorageReader.namedGraphs_eq h.reads hi hu
    exact ⟨_, r.called, ⟨_, Prod.ext rfl he, rfl⟩, ⟨h.reads.called, h.batch⟩, hl⟩
  case containsNamedGraph graphName =>
    have ⟨b, he, hb⟩ := StorageReader.containsNamedGraph_eq h.reads hi hr
    exact ⟨_, _, ⟨b, he, rfl⟩, ⟨h.reads.called, h.batch⟩, hb⟩
  case len =>
    have he := StorageReader.len_eq h.reads hi.toIndexes hu.left hu.right
    exact ⟨_, _, ⟨_, he, rfl⟩, ⟨h.reads.called.called, h.batch⟩, rfl⟩
  case isEmpty =>
    have ⟨b, r', he, hb, hr, hs⟩ := StorageReader.isEmpty_eq h.reads hi.toIndexes
    exact ⟨_, r', ⟨b, he, rfl⟩, ⟨hr, hs ▸ h.batch⟩, hb⟩

theorem Read.allGive_agreeing {reads : List Read} (hv : Versions db Ds) (h : r.Snapshot db ts)
    (hr : ∀ read ∈ reads, read.IsRead ∧ read.Unchanged db Ds ts) :
    ∃ as, AllGive db r reads as ∧ List.Forall₂ (Agrees (Ds ts)) reads as := by
  induction reads generalizing r
  case nil => exact ⟨[], rfl, .nil⟩
  case cons read reads hi =>
    have ⟨⟨hr, hu⟩, hrs⟩ := List.forall_mem_cons.mp hr
    have ⟨a, r', hg, h', ha⟩ := read.gives_agreeing hv h hr hu
    have ⟨as, hgs, has⟩ := hi h' hrs
    exact ⟨a :: as, ⟨a, r', as, rfl, hg, hgs⟩, .cons ha has⟩

theorem snapshotAt_snapshot (hb : 0 < n ∧ n < 2 ^ 32) : (snapshotAt db ts n).Snapshot db ts :=
  ⟨⟨rfl, rfl⟩, ⟨hb.left, hb.right⟩⟩

theorem snapshot_reads_agree {reads : List Read} (hv : Versions db Ds) (hb : 0 < n ∧ n < 2 ^ 32)
    (hr : ∀ read ∈ reads, read.IsRead ∧ read.Unchanged db Ds ts) :
    ∃ as, Read.AllGive db (snapshotAt db ts n) reads as ∧
      List.Forall₂ (Read.Agrees (Ds ts)) reads as :=
  Read.allGive_agreeing hv (snapshotAt_snapshot hb) hr

end Snapshot

-- After the snapshot another client removes the quad.
def emptiedDb : History Bytes Bytes := commitOp .plain (.remove sampleQuad) sampleDb

theorem emptiedDb_versions : Versions emptiedDb fun n =>
    if n ≤ 1 then if n = 0 then ⟨∅, ∅⟩ else ⟨{sampleEncoded}, {sampleEncoded.graphName}⟩ else
      ⟨∅, {sampleEncoded.graphName}⟩ := by
  intro n
  have h : Versions emptiedDb _ := sampleDb_versions.commit_remove
  have hn : sampleDb.now = 1 := now_commit_insert
  have hq : (Encoder.plain.encodeQuad sampleQuad).canonical = sampleEncoded := rfl
  simpa [nextVersions, hn, DatasetDelta.patch_comp, hq, Dataset.remove] using h n

theorem snapshot_reads_agree_sample :
    let reads : List Read := [.contains sampleEncoded, .isEmpty,
      .quadsForPattern ⟨none, none, none, none⟩ fun _ => 1]
    ∃ as, Read.AllGive emptiedDb (snapshotAt emptiedDb 1 1) reads as ∧
      List.Forall₂ (Read.Agrees ⟨{sampleEncoded}, {sampleEncoded.graphName}⟩) reads as := by
  refine snapshot_reads_agree emptiedDb_versions ⟨by decide, by decide⟩ ?_
  simp only [List.mem_cons, List.not_mem_nil, or_false, forall_eq_or_imp, forall_eq]
  refine ⟨⟨isQuad_sampleEncoded, trivial⟩, ⟨trivial, trivial⟩, ⟨nofun, nofun, nofun, nofun⟩, ?_⟩
  exact fun _ _ _ => .rfl

-- The reader still contains the quad, but its iterators do not find it.
theorem snapshot_reads_disagree :
    let reads : List Read := [.contains sampleEncoded,
      .quadsForPattern ⟨none, none, none, none⟩ fun _ => 2]
    ∃ as, Read.AllGive emptiedDb (snapshotAt emptiedDb 1 1) reads as ∧
      ∀ D, ¬List.Forall₂ (Read.Agrees D) reads as := by
  have h : (snapshotAt emptiedDb 1 1).Snapshot emptiedDb 1 :=
    snapshotAt_snapshot ⟨by decide, by decide⟩
  have ⟨b, he, hb⟩ := StorageReader.contains_eq h.reads (emptiedDb_versions 1).toIndexes
    isQuad_sampleEncoded
  have h' : (snapshotAt emptiedDb 1 1).called.Snapshot emptiedDb 1 := ⟨h.reads.called, h.batch⟩
  have ⟨items, r', _, hg, _, hl⟩ := Read.quadsForPattern_gives ⟨none, none, none, none⟩ (fun _ => 2)
    emptiedDb_versions h' ⟨nofun, nofun, nofun, nofun⟩
  refine ⟨[.bool b, .quads items], ⟨_, _, _, rfl, ⟨b, he, rfl⟩, _, r', _, rfl, hg, rfl⟩, ?_⟩
  intro D ha
  have ⟨hq, hq'⟩ : Read.Agrees D (.contains sampleEncoded) (.bool b) ∧
      Read.Agrees D (.quadsForPattern ⟨none, none, none, none⟩ fun _ => 2) (.quads items) := by
    simpa using ha
  have hq : sampleEncoded ∈ D.quads := hq.mp <| hb.mpr rfl
  have hn : items = [] := hl.eq_nil_iff.mpr <| by simp
  have hm : Pattern.Matches ⟨none, none, none, none⟩ sampleEncoded := by simp [Pattern.matches_iff]
  exact Set.eq_empty_iff_forall_notMem.mp (hq'.eq_nil_iff.mp hn) _ ⟨hq, hm⟩

end TiKv
