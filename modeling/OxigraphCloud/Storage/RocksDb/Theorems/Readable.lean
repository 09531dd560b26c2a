import OxigraphCloud.Primitives.Iterator
import OxigraphCloud.Storage.RocksDb.Theorems.Transaction

namespace RocksDb

theorem upperBound_append_singleton {b : UInt8} : upperBound (p ++ [b]) =
    if b < 0xFF then some (p ++ [b + 1]) else (upperBound p).map (· ++ [b]) := by
  by_cases h : b < 0xFF
  case pos => simp [upperBound, upperBound.increment, h]
  case neg =>
    cases hp : upperBound.increment p.reverse <;> simp [upperBound, upperBound.increment, h, hp]

-- The range of a prefix has all keys with the prefix. It has others, too, if the prefix ends with
-- the highest byte.
theorem mem_prefixRange_of_prefix {p k : Bytes} (h : p <+: k) : k ∈ prefixRange p := by
  refine ⟨Bytes.IsPrefix_le h, ?_⟩
  change ∀ u ∈ upperBound p, k < u
  induction p using List.reverseRecOn
  case nil => nofun
  case append_singleton p b hi =>
    rw [upperBound_append_singleton]
    split
    case isTrue hb =>
      have := Bytes.prefix_iff_mem_range.mp h |>.right
      rwa [Bytes.next?_append_singleton, if_pos hb] at this
    case isFalse =>
      intro u hu
      have ⟨u', hu', he⟩ := Option.mem_map.mp hu
      have hk := hi ((List.prefix_append ..).trans h) u' hu'
      exact he ▸ hk.trans_le (Bytes.IsPrefix_le <| List.prefix_append ..)

-- The quads that the scan for a graph runs through, if they are there.
def Scanned (g : EncodedTerm) (q : EncodedQuad) : Prop :=
  (q.graphName = .defaultGraph ↔ g = .defaultGraph) ∧
  (g ≠ .defaultGraph → writeGspoQuad q ∈ prefixRange (writeTerm g))

theorem scanned_self (q : EncodedQuad) : Scanned q.graphName q := by
  refine ⟨.rfl, fun _ => mem_prefixRange_of_prefix ?_⟩
  exact ⟨_, rfl⟩

theorem Reader.mem_scanPrefix {r : Reader} :
    k ∈ r.scanPrefix table pre ↔ k ∈ tables r.view table ∧ k ∈ prefixRange pre :=
  Kv.mem_keysIn

namespace ReadableTransaction

-- A readable transaction on a store that holds `D`, which has buffered the change `δ`.
structure Running (t : ReadableTransaction) (D : Dataset) (δ : DatasetDelta) : Prop where
  stores   : (tables t.snapshot).Stores D
  coherent : t.batch.delta.Coherent δ

variable {t : ReadableTransaction} {D : Dataset} {δ : DatasetDelta} {g : EncodedTerm}

theorem Running.view (h : t.Running D δ) : (tables t.reader.view).Stores (δ.patch D) := by
  rw [Reader.view, WriteBatch.tables_write]
  exact h.stores.patch h.coherent

theorem Running.write {batch : WriteBatch} (h : t.Running D δ) (hb : batch.delta.Coherent δ') :
    Running { t with batch } D δ' :=
  { h with coherent := hb }

theorem innerQuads_lists {r : StorageReader} {e : QuadEncoding} {pre : Bytes}
    (h : (tables r.view).Indexes Q) : Iter.Lists (StorageReader.innerQuads r e.table pre e) {
      q ∈ Q | (q.graphName = .defaultGraph ↔ e.forDefaultGraph) ∧ e.writer q ∈ prefixRange pre
    } := by
  refine .map e.writer Kv.keysIn_nodup (fun k => ?_) ?_
  · rw [Reader.mem_scanPrefix, h.index]
    constructor
    · intro ⟨⟨q, hq, hi, he⟩, hr⟩
      exact ⟨q, ⟨hq, hi.graph, he ▸ hr⟩, he⟩
    · intro ⟨q, ⟨hq, hg, hr⟩, he⟩
      exact ⟨⟨q, hq, ⟨h.isQuad q hq, hg⟩, he⟩, he ▸ hr⟩
  · intro q ⟨hq, hg, _⟩
    have hi : e.Indexes q := ⟨h.isQuad q hq, hg⟩
    rw [hi.decode_writer, h.canonical q hq]

theorem quadsForGraph_lists (h : t.Running D δ) :
    Iter.Lists (t.reader.quadsForGraph g) { q ∈ (δ.patch D).quads | Scanned g q } := by
  unfold StorageReader.quadsForGraph
  split
  case isTrue hg =>
    obtain rfl := EncodedTerm.isDefaultGraph_iff.mp hg
    refine (innerQuads_lists (e := .dspo) h.view.toIndexes).congr fun q => ?_
    have hr : writeSpoQuad q ∈ prefixRange [] := mem_prefixRange_of_prefix <| List.nil_prefix
    have hd : QuadEncoding.dspo.forDefaultGraph = true := rfl
    exact and_congr_right fun _ => by simp [Scanned, QuadEncoding.writer, hr, hd]
  case isFalse hg =>
    rw [EncodedTerm.isDefaultGraph_iff] at hg
    refine (innerQuads_lists (e := .gspo) h.view.toIndexes).congr fun q => ?_
    have hd : QuadEncoding.gspo.forDefaultGraph = false := rfl
    exact and_congr_right fun _ => by simp [Scanned, QuadEncoding.writer, hg, hd, encodeTerm]

theorem takeQuads_spec (h : t.Running D δ) :
    ∃ quads : List EncodedQuad, t.takeQuads g = .ok (quads.take batchSize) ∧ quads.Nodup ∧
      ∀ q, q ∈ quads ↔ q ∈ (δ.patch D).quads ∧ Scanned g.canonical q := by
  have ⟨quads, hi, hn, hm⟩ := quadsForGraph_lists (g := g) h
  refine ⟨quads, ?_, hn, fun q => ?_⟩
  · rw [takeQuads, hi, ← List.map_take, Iter.mapM_ok]
  · rw [hm]
    exact and_congr_right fun _ => by simp [Scanned]

theorem takeGraphNames_spec (h : t.Running D δ) :
    ∃ graphNames : List EncodedTerm, t.takeGraphNames = .ok (graphNames.take batchSize) ∧
      graphNames.Nodup ∧ ∀ g, g ∈ graphNames ↔ g ∈ (δ.patch D).namedGraphs := by
  have hl : Iter.Lists t.reader.namedGraphs (δ.patch D).namedGraphs := by
    refine .map writeTerm Kv.keysIn_nodup (fun k => ?_) fun g hg => ?_
    · rw [Reader.iter, Reader.mem_scanPrefix, h.view.graphs]
      constructor
      · intro ⟨⟨g, hg, _, he⟩, _⟩
        exact ⟨g, hg, he⟩
      · intro ⟨g, hg, he⟩
        exact ⟨⟨g, hg, h.view.isTerm g hg, he⟩, mem_prefixRange_of_prefix <| List.nil_prefix⟩
    · rw [decodeTerm_writeTerm (h.view.isTerm g hg), h.view.canonicalGraph g hg]
  have ⟨graphNames, hi, hn, hm⟩ := hl
  refine ⟨graphNames, ?_, hn, hm⟩
  rw [takeGraphNames, hi, ← List.map_take, Iter.mapM_ok]

def reading (D : Dataset) : ReadableBackend.Reading ReadableTransaction where
  dataset     := D
  holds t     := t.Running D
  base _      := D.quads
  found _ δ g := { q ∈ (δ.patch D).quads | Scanned g q }

theorem lawful (enc : Encoder) : (backend enc).Lawful (reading D) where
  pos                  := show 0 < batchSize by decide
  takeQuads h _        :=
    have ⟨quads, he, hn, hm⟩ := takeQuads_spec h
    ⟨quads, _, by simp only [backend, he], h, hn, hm⟩
  takeGraphNames h     :=
    have ⟨graphNames, he, hn, hm⟩ := takeGraphNames_spec h
    ⟨graphNames, _, by simp only [backend, he], h, hn, hm⟩
  isQuad h hq          := ⟨h.view.isQuad _ hq.left, h.view.canonical _ hq.left⟩
  isTerm h hg          := ⟨h.view.isTerm _ hg, h.view.canonicalGraph _ hg⟩
  named _ hq           := hq.right.left
  complete _ hn hq     := ⟨.inr ⟨hn, hq⟩, scanned_self _⟩
  insert quad h        := h.write <| StorageTransaction.insertQuad_coherent quad h.coherent
  insertNamedGraph g h := h.write <| StorageTransaction.insertNamedGraph_coherent g h.coherent
  removeEncoded h hq   := h.write <| StorageTransaction.removeEncoded_coherent h.coherent hq
  removeGraphName h hg := h.write <| StorageTransaction.removeGraphName_coherent h.coherent hg

-- The scans see what the transaction has removed, so that each full batch leaves fewer quads.
theorem clearEncodedGraph_terminates (enc : Encoder) (h : t.Running D δ)
    (hg : g ≠ .defaultGraph → g.IsTerm) : ((backend enc).clearEncodedGraph g).Terminates t := by
  let left (δ : DatasetDelta) : Set EncodedQuad := { q ∈ (δ.patch D).quads | Scanned g.canonical q }
  have ⟨_, t', he⟩ : ∃ u t', ((backend enc).clearEncodedGraph g).Evaluates t (.ok u) t' :=
    Proc.evaluates_loop_of_measure (I := fun n t => ∃ δ, t.Running D δ ∧ (left δ).ncard = n)
      ⟨δ, h, rfl⟩ ?_
  · exact ⟨_, t', he⟩
  intro n t ⟨δ, h, hn⟩
  have ⟨quads, t', he, h', hd, hm⟩ := ReadableBackend.clearRound_spec (lawful enc) h hg
  by_cases hl : quads.length < (backend enc).batchSize
  case pos =>
    rw [if_pos hl] at he
    exact .inr ⟨(), t', he⟩
  case neg =>
    rw [if_neg hl] at he
    have hm : ∀ q, q ∈ quads ↔ q ∈ left δ := hm
    have hs : left ((DatasetDelta.dropQuads { q | q ∈ quads.take batchSize }).comp δ) ⊂ left δ := by
      have hp : 0 < quads.length := lt_of_lt_of_le (show 0 < batchSize by decide) (not_lt.mp hl)
      have ht : quads[0] ∈ quads.take batchSize := by
        rw [List.mem_take_iff_getElem]
        exact ⟨0, lt_min (by decide) hp, rfl⟩
      rw [Set.ssubset_iff_exists]
      simp only [left, DatasetDelta.patch_comp, DatasetDelta.patch_dropQuads]
      refine ⟨fun q hq => ⟨hq.left.left, hq.right⟩, quads[0], ?_, fun hq => hq.left.right ht⟩
      exact hm _ |>.mp <| List.getElem_mem hp
    have hf : (left δ).Finite := quads.finite_toSet.subset fun q hq => (hm q).mpr hq
    exact .inl ⟨_, hn ▸ Set.ncard_lt_ncard hs hf, t', he, _, h', rfl⟩

def reach : Reach where
  quads g    := { q | Scanned g q }
  finishes _ := True

theorem clearing (enc : Encoder) : (backend enc).Clearing (reading D) reach where
  toLawful        := lawful enc
  found _ hq      := hq.right
  reaches _ hq hv := ⟨hv, hq⟩
  finishes h hg   := iff_of_true (clearEncodedGraph_terminates enc h hg) trivial

end ReadableTransaction

end RocksDb
