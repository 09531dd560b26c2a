import OxigraphCloud.Storage.Theorems.Semantics
import OxigraphCloud.Storage.TiKv.Theorems.Snapshot

namespace TiKv.ReadableTransaction

-- A readable transaction on a store that holds `D`, which has buffered the change `δ`. The `n`-th
-- transaction that its iterators open finds the quads `Qs n`.
structure Running (t : ReadableTransaction) (views : ℕ → State) (Qs : ℕ → Set EncodedQuad)
    (D : Dataset) (δ : DatasetDelta) : Prop where
  serves  : t.storage.Serves views
  indexes : ∀ n, (tables (views n)).Indexes (Qs n)
  batch   : t.storage.BatchSize
  pending : t.txn.Pending D δ

variable {t t' : ReadableTransaction} {views : ℕ → State} {Qs : ℕ → Set EncodedQuad} {D : Dataset}
  {δ : DatasetDelta} {g : EncodedTerm}

theorem Running.write {txn : Transaction} (h : t.Running views Qs D δ) (hw : txn.Pending D δ') :
    Running { t with txn } views Qs D δ' :=
  { h with pending := hw }

-- What a batch of `clear_encoded_graph` reads.
theorem takeQuads_spec (h : t.Running views Qs D δ) (hg : g ≠ .defaultGraph → g.IsTerm) :
    ∃ (quads : List EncodedQuad) (t' : ReadableTransaction),
      takeQuads g t = (.ok (quads.take batchSize), t') ∧ t'.Running views Qs D δ ∧
      quads.Nodup ∧ ∀ q, q ∈ quads ↔ q ∈ quadsOf (Qs t.storage.begun) g.canonical := by
  have hp : Pattern.IsPattern ⟨none, none, none, some g⟩ :=
    ⟨by simp, by simp, by simp, by simpa using hg⟩
  obtain ⟨p', e, he, hl⟩ := StorageReader.graph_lists (r := t.reader) h.indexes hp rfl
  obtain ⟨quads, hi, hn, hm⟩ := hl t.storage.begun
  have he : t.reader.quadsForGraph g = .new (t.reader.lookup p' e) := congrArg Prod.fst he
  have hr : (t.reader.quadsForGraph g).Ready :=
    he ▸ ⟨StorageReader.lookup_ready h.batch, fun _ h => by cases h⟩
  have hi : (t.reader.quadsForGraph g).pending views t.storage.begun = quads.map .ok := by
    simpa [he, DecodingQuadIterator.pending, DecodingQuadIterator.new] using hi
  obtain ⟨_, n, hc⟩ := DecodingQuadIterator.takeCollect_spec hr h.serves hi batchSize
  refine ⟨quads, { t with storage := { t.storage with begun := n } }, ?_,
    ⟨h.serves, h.indexes, ⟨h.batch.pos, h.batch.lt⟩, h.pending⟩, hn, ?_⟩
  · simp only [takeQuads, hc]
  · simpa [Pattern.matches_iff, Pattern.canonical, quadsOf] using hm

-- A batch is shorter than the limit of the scan.
theorem takeGraphNames_spec (h : t.Running views Qs D δ) :
    ∃ (graphNames : List EncodedTerm) (t' : ReadableTransaction),
      takeGraphNames t = (.ok (graphNames.take batchSize), t') ∧ t'.Running views Qs D δ ∧
      graphNames.Nodup ∧ ∀ g, g ∈ graphNames ↔ g ∈ (δ.patch D).namedGraphs := by
  have hr : t.reader.txn.Reads t.txn.view := ⟨h.pending.faults, rfl⟩
  have ⟨graphNames, hl, hn, hm⟩ := StorageReader.lists_of_graphs h.pending.view
  refine ⟨graphNames, { t with txn := { t.txn with calls := t.txn.calls + 1 } }, ?_,
    ⟨h.serves, h.indexes, h.batch, ⟨h.pending.faults, h.pending.stores, h.pending.coherent⟩⟩, hn,
      hm⟩
  have hs : batchSize ≤ u32Max := by decide
  rw [Kv.keysIn, List.map_map] at hl
  simp only [takeGraphNames, StorageReader.namedGraphs, StorageReader.scanPrefix,
    StorageReader.withTxn, hr.scan, Kv.scan]
  have ht : List.take batchSize (List.map (fun x => decodeTerm (x.1.drop 1))
      (List.take u32Max (t.txn.view.entriesIn (prefixRange (prefixedKey .graphs []))))) =
      (graphNames.take batchSize).map .ok := by
    rw [List.map_take, List.take_take, min_eq_left hs, List.map_take, ← hl]
    rfl
  rw [ht, Iter.mapM_ok]
  rfl

def reading (views : ℕ → State) (Qs : ℕ → Set EncodedQuad) (D : Dataset) :
    ReadableBackend.Reading ReadableTransaction where
  dataset     := D
  holds t     := t.Running views Qs D
  base t      := Qs t.storage.begun
  found t _ g := quadsOf (Qs t.storage.begun) g

theorem lawful (enc : Encoder) : (backend enc).Lawful (reading views Qs D) where
  pos                 := show 0 < batchSize by decide
  takeQuads           := takeQuads_spec
  takeGraphNames      := takeGraphNames_spec
  isQuad h hq         := ⟨(h.indexes _).isQuad _ hq.left, (h.indexes _).canonical _ hq.left⟩
  isTerm h hg         := ⟨h.pending.view.isTerm _ hg, h.pending.view.canonicalGraph _ hg⟩
  named _ hq          := by rw [hq.right]
  complete _ _ hq     := ⟨hq, rfl⟩
  insert _ h          := h.write h.pending.insert
  insertNamedGraph _ h := h.write h.pending.insertNamedGraph
  removeEncoded h hq  := h.write <| h.pending.removeEncoded hq
  removeGraphName h hg := h.write <| h.pending.removeGraphName hg

-- The iterators do not see what the transaction has removed, so that each round of the loop finds
-- the same quads again.
theorem clearEncodedGraph_terminates_iff (enc : Encoder)
    (h : t.Running (fun _ => kv) (fun _ => Q) D δ) (hg : g ≠ .defaultGraph → g.IsTerm) :
    ((backend enc).clearEncodedGraph g).Terminates t ↔
      (quadsOf Q g.canonical).ncard < batchSize where
  mp := fun ⟨_, _, he⟩ => by
    have ⟨_, _, _, hS⟩ := ReadableBackend.clearEncodedGraph_ensures (lawful enc) h hg he
    have ⟨_, _, _, _, _, hn⟩ := hS.all
    exact hn
  mpr hn := by
    have ⟨quads, t', he, _, hd, hm⟩ := ReadableBackend.clearRound_spec (lawful enc) h hg
    have hl : quads.length < (backend enc).batchSize := Iter.ncard_eq_length hd hm ▸ hn
    rw [if_pos hl] at he
    exact ⟨_, t', Proc.evaluates_loop.mpr <| .inr <| .inl ⟨_, rfl, he⟩⟩

-- Clearing a graph takes out the committed quads of the graph, if these can be read in one batch.
def reach (Q : Set EncodedQuad) : Reach where
  quads      := quadsOf Q
  finishes g := (quadsOf Q g).ncard < batchSize

theorem clearing (enc : Encoder) :
    (backend enc).Clearing (reading (fun _ => kv) (fun _ => Q) D) (reach Q) where
  toLawful       := lawful enc
  found _ hq     := hq
  reaches _ hq _ := hq
  finishes h hg  := clearEncodedGraph_terminates_iff enc h hg

-- The transaction itself sees its writes. The iterators of its reader only see what is committed.
theorem quadsForPattern_sees_writes_iff {enc : Encoder} {ops : List ReadableOp} {p : Pattern}
    (h : t.Running (fun _ => t.txn.snapshot) (fun _ => D.quads) D .none)
    (he : ((backend enc).applyAll ops).Evaluates t (.ok ()) t') (hp : p.IsPattern) :
    let D' := (reach D.quads).run enc ops D
    (∀ q : EncodedQuad, q.IsQuad →
      ∃ b : Bool, (t'.reader.contains q).1 = .ok b ∧ (b ↔ q.canonical ∈ D'.quads)) ∧
    ∃ (quads : List EncodedQuad) (s' : _),
      Iter.Yields DecodingQuadIterator.next
        ((t'.reader.quadsForPattern p).1, (t'.reader.quadsForPattern p).2.storage)
        (quads.map .ok) s' ∧
      quads.Nodup ∧ (∀ q, q ∈ quads ↔ q ∈ D.quads ∧ p.canonical.Matches q) ∧
      ((∀ q, q ∈ quads ↔ q ∈ D'.quads ∧ p.canonical.Matches q) ↔
        ∀ q, p.canonical.Matches q → (q ∈ D'.quads ↔ q ∈ D.quads)) := by
  obtain ⟨δ, h', hv⟩ := (clearing enc).applyAll_evaluates h he
  have hv : δ.patch D = (reach D.quads).run enc ops D := hv
  constructor
  · intro q hq
    obtain ⟨b, hc, hb⟩ := StorageReader.contains_eq (r := t'.reader) ⟨h'.pending.faults, rfl⟩
      h'.pending.view.toIndexes hq
    exact ⟨b, congrArg Prod.fst hc, hv ▸ hb⟩
  · obtain ⟨_, _, _, _, hy, ⟨quads, rfl, hn, hm⟩, _⟩ :=
      StorageReader.quadsForPattern_answers (r := t'.reader) h'.serves h'.indexes h'.batch hp
    refine ⟨quads, _, hy, hn, hm, ?_⟩
    simp only [hm, Set.mem_ofPred]
    constructor
    · exact fun h q hq => by simpa [hq] using (h q).symm
    · exact fun h q => and_congr_left fun hq => (h q hq).symm

end TiKv.ReadableTransaction

namespace TiKv

def emptyTransaction : ReadableTransaction where
  txn     := beginAt ⟨∅, []⟩ 0 noFaults
  storage := .openedAt ⟨∅, []⟩ (fun _ => 0) 1

theorem running_emptyTransaction : emptyTransaction.Running
    (fun _ => emptyTransaction.txn.snapshot) (fun _ => ∅) ⟨∅, ∅⟩ .none :=
  ⟨Storage.openedAt_serves, fun _ => (Versions.empty 0).toIndexes, ⟨by decide, by decide⟩,
    Versions.empty.pending 0⟩

-- The transaction after it has inserted a quad.
def insertingReader : StorageReader :=
  ((ReadableTransaction.backend .plain).insert sampleQuad emptyTransaction).reader

theorem quadsForPattern_sees_writes_sample :
    ∃ b : Bool, (insertingReader.contains sampleEncoded).1 = .ok b ∧
      (b ↔ sampleEncoded ∈ Dataset.quads (.insert ⟨∅, ∅⟩ sampleEncoded)) :=
  have he : ((ReadableTransaction.backend .plain).applyAll [.insert sampleQuad]).Evaluates
      emptyTransaction (.ok ()) _ := ⟨0, rfl⟩
  (ReadableTransaction.quadsForPattern_sees_writes_iff (p := ⟨none, none, none, none⟩)
    running_emptyTransaction he ⟨nofun, nofun, nofun, nofun⟩).1 sampleEncoded isQuad_sampleEncoded

end TiKv
